import JackCompiler.Files.Host
import JackCompiler.Files.PathName
/-!
# A model of a host

A world holds a tree of files, directories and devices, kept as a list of the places taken, and what
has been printed. A place is the list of names that leads to it from the root. A path is followed
from the working directory, or from the root if it begins with a slash, and every segment needs a
directory to start from. A name can stand for another place: as a link does, as a second name of a
file, or where letter case makes no difference. Files can be locked, and a channel can have room for
so many characters only. A write succeeds whole or changes nothing.

Left out are names that are no text, permissions of directories, links that lead in a circle or to a
directory that is missing, other programs that change the files meanwhile, a channel that is itself
one of the files, and the order in which a directory lists its names. What is proved of runs is
proved of every host with the laws that are stated with the proofs, of which a world is one.
-/

namespace JackCompiler

/-- What a device does with a text that is written to it. -/
inductive Device
  /-- It takes the text and keeps nothing. -/
  | sink
  /-- It has no room for any text. -/
  | full
  /-- It prints the text. -/
  | channel (channel : Channel)
  deriving DecidableEq, Repr

/-- What stands at a place. -/
inductive Entry
  | file (bytes : ByteArray)
  | directory
  | device (device : Device)

/-- The names that lead from the root to a place. -/
abbrev Place := List String

/-- A host as a value. -/
structure World where
  workingDirectory : Place
  entries : List (Place × Entry)
  output : String := ""
  errors : String := ""
  time : Nat := 0
  /-- The place that a name in a directory stands for. -/
  leadsTo : Place → Place := id
  /-- The files that may not be read or written. -/
  locked : List Place := []
  /-- How many characters a channel has room for, if there is a bound. -/
  room : Channel → Option Nat := fun _ => none

namespace World

/-- The longest name, in bytes. -/
def longestName : Nat := 255

/-- The longest path, in bytes. -/
def longestPath : Nat := 4095

/-- A world with nothing but a working directory. -/
def fresh (workingDirectory : Place) : World where
  workingDirectory := workingDirectory
  entries := [(workingDirectory, .directory)]

/-- What stands at a place. The root is a directory. -/
def at? (w : World) (place : Place) : Option Entry :=
  if place = [] then some .directory else w.entries.lookup place

/-- The world with another entry at a place. -/
def put (w : World) (place : Place) (entry : Entry) : World :=
  { w with entries := (place, entry) :: w.entries.filter (·.1 ≠ place) }

/-- The place that a segment leads to. -/
def stepTo (w : World) (place : Place) (segment : String) : Place :=
  if segment = "" ∨ segment = "." then place
  else if segment = ".." then place.dropLast
  else w.leadsTo (place ++ [segment])

/-- Follows segments from a place. -/
def follow (w : World) : Place → List String → Except FileError Place
  | place, [] => .ok place
  | place, segment :: rest =>
    match w.at? place with
    | none => .error .notFound
    | some (.file _) | some (.device _) => .error .notDirectory
    | some .directory =>
      if longestName < segment.utf8ByteSize then .error .nameTooLong
      else follow w (w.stepTo place segment) rest

/-- Follows segments that stand last first, as those of a path. -/
def locateSegments (w : World) (path : String) (segments : List String) :
    Except FileError Place :=
  if path = "" then .error .notFound
  else if longestPath < path.utf8ByteSize then .error .nameTooLong
  else
    let start := if path.toList.head? = some '/' then [] else w.workingDirectory
    w.follow start segments.reverse

/-- The place that a path leads to. -/
def locate (w : World) (path : String) : Except FileError Place :=
  w.locateSegments path (PathName.segments path)

/-- The place that a path would take, slashes at its end apart. -/
def locateNew (w : World) (path : String) : Except FileError Place :=
  w.locateSegments path ((PathName.segments path).dropWhile (· = ""))

/-- What a path leads to. -/
def entryAt (w : World) (path : String) : Except FileError Entry := do
  match w.at? (← w.locate path) with
  | some entry => .ok entry
  | none => .error .notFound

/-- What kind of thing a path leads to. -/
def kindOf (w : World) (path : String) : Except FileError FileKind := do
  match ← w.entryAt path with
  | .directory => return .directory
  | .file _ | .device _ => return .file

/-- The names of the files that a directory holds itself. -/
def filesIn (w : World) (path : String) : List String :=
  match w.locate path with
  | .error _ => []
  | .ok place =>
    w.entries.filterMap fun (p, entry) =>
      match entry, p.getLast? with
      | .file _, some name => if p = place ++ [name] then some name else none
      | _, _ => none

/-- The bytes of a file. A device has none. -/
def read (w : World) (path : String) : Except FileError ByteArray := do
  let place ← w.locate path
  match w.at? place with
  | none => .error .notFound
  | some .directory => .error .isDirectory
  | some (.device _) => return .empty
  | some (.file bytes) => if place ∈ w.locked then .error .notAllowed else return bytes

/-- The place of the directory that a path which ends with a slash would stand in. -/
def locateParent (w : World) (path : String) : Except FileError Place :=
  w.locateSegments path ("" :: ((PathName.segments path).dropWhile (· = "")).drop 1)

/-- What a channel has printed. -/
def printed (w : World) : Channel → String
  | .output => w.output
  | .errors => w.errors

/-- The world with a text more on a channel. -/
def append (w : World) (channel : Channel) (text : String) : World :=
  match channel with
  | .output => { w with output := w.output ++ text }
  | .errors => { w with errors := w.errors ++ text }

/-- Prints a text, or as much of it as there is room for. -/
def print (w : World) (channel : Channel) (text : String) : Except FileError Unit × World :=
  match w.room channel with
  | none => (.ok (), w.append channel text)
  | some room =>
    let left := room - (w.printed channel).length
    if text.length ≤ left then (.ok (), w.append channel text)
    else (.error .noSpace, w.append channel (String.ofList (text.toList.take left)))

/-- Writes a text to a device, which stays as it is. -/
def writeTo (w : World) (content : String) : Device → Except FileError World
  | .sink => .ok w
  | .full => if content = "" then .ok w else .error .noSpace
  | .channel channel =>
    match w.print channel content with
    | (.ok (), w') => .ok w'
    | (.error e, _) => .error e

/-- Gives a file a content, or a device a text. A path that ends with a slash asks for a directory,
whatever it leads to. -/
def write (w : World) (path content : String) : Except FileError World := do
  if path.toList.getLast? = some '/' then
    let _ ← w.locateParent path
    .error .isDirectory
  else
    let place ← w.locateNew path
    match w.at? place with
    | some .directory => .error .isDirectory
    | some (.device device) => w.writeTo content device
    | _ =>
      if place ∈ w.locked then .error .notAllowed
      else return w.put place (.file content.toUTF8)

/-- Makes a directory. -/
def makeDirectory (w : World) (path : String) : Except FileError World := do
  let place ← w.locateNew path
  match w.at? place with
  | some _ => .error .alreadyThere
  | none => return w.put place .directory

/-- Goes on in the new world, or stays in the old one. -/
def attempt (w : World) : Except FileError World → Except FileError Unit × World
  | .ok w' => (.ok (), w')
  | .error e => (.error e, w)

end World

instance : Host (StateM World) where
  kindOf path := do return (← get).kindOf path
  filesIn path := do return (← get).filesIn path
  read path := do return (← get).read path
  write path content := modifyGet fun w => w.attempt (w.write path content)
  makeDirectory path := modifyGet fun w => w.attempt (w.makeDirectory path)
  print channel text := modifyGet fun w => w.print channel text
  now := do return (← get).time

end JackCompiler
