import JackCompiler.Text.Pieces
/-!
# Names of paths

A path is written as segments with slashes between. A path names a file by its last segment, not
counting empty segments and single dots behind it; two dots name no file. The extension of a file is
what stands behind the last dot of its name, unless the name has no other dot and begins with it.
-/

namespace JackCompiler.PathName

/-- The segments of a path, last first. -/
def segments (path : String) : List String := ((pieces '/' path.toList).map String.ofList).reverse

/-- Joins segments that stand last first. -/
def ofSegments (segments : List String) : String := String.intercalate "/" segments.reverse

/-- Drops the segments at the end that lead nowhere, last first. A dot that stands alone stays. -/
def dropIdle : List String → List String
  | [] => []
  | [s] => if s = "" then [] else [s]
  | s :: t :: rest => if s = "" ∨ s = "." then dropIdle (t :: rest) else s :: t :: rest

/-- The name of the file that a path names, behind the segments in front of it, last first. -/
def split? (path : String) : Option (List String × String) :=
  match dropIdle (segments path) with
  | [] => none
  | s :: rest => if s = "." ∨ s = ".." then none else some (rest, s)

/-- The name of the file that a path names. -/
def name? (path : String) : Option String := (split? path).map (·.2)

/-- A name in front of its last dot, and behind it. -/
def splitExtension (name : String) : Option (String × String) :=
  let r := name.toList.reverse
  match r.dropWhile (· ≠ '.') with
  | [] | [_] => none
  | _ :: stem => some (String.ofList stem.reverse, String.ofList (r.takeWhile (· ≠ '.')).reverse)

/-- The extension of the file that a path names. -/
def extension? (path : String) : Option String :=
  (name? path).bind fun name => (splitExtension name).map (·.2)

/-- Puts an extension behind the stem of the file that a path names. -/
def setExtension (path extension : String) : String :=
  match split? path with
  | none => path
  | some (front, name) =>
    let stem := match splitExtension name with
      | some (stem, _) => stem
      | none => name
    ofSegments ((stem ++ "." ++ extension) :: front)

/-- The path with another extension. The old one is cut off first; where two dots are then left,
they name no file and stay. -/
def withExtension (path extension : String) : String :=
  match extension? path with
  | none => setExtension path extension
  | some old =>
    setExtension (String.ofList (path.toList.take (path.length - old.length))) extension

/-- The path of a name inside a directory. -/
def join (directory name : String) : String :=
  if directory = "" then name
  else if directory.toList.getLast? = some '/' then directory ++ name
  else directory ++ "/" ++ name

/-- The path without its last segment. -/
def parent? (path : String) : Option String :=
  match dropIdle (segments path) with
  | [] => none
  | _ :: [] => some ""
  | _ :: rest =>
    match dropIdle rest with
    | [] => some "/"
    | front => some (ofSegments front)

end JackCompiler.PathName
