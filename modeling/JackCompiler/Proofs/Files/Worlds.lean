import JackCompiler.Files.World
import JackCompiler.Proofs.Files.Laws
import JackCompiler.Proofs.Files.Segments
/-!
# Worlds obey the laws

A path is followed from directory to directory, so it leads where it has led before as long as the
directories stay. What is put where no directory has been is found at the end of the path that it is
put to: a path for a new file does not end with a slash, and slashes behind a new directory lead
nowhere else. A device stays as it is.

        a/b/      follow a, put b, and b/ leads to b
-/

namespace JackCompiler.World

variable {w w' : World} {place q : Place} {path : String}

/-! ### What stands at a place -/

@[simp] theorem at?_nil : w.at? [] = some .directory := if_pos rfl

theorem lookup_filter_ne (h : q ≠ place) (l : List (Place × Entry)) :
    (l.filter (·.1 ≠ place)).lookup q = l.lookup q := by
  induction l with
  | nil => rfl
  | cons a l ih =>
    obtain ⟨p, e⟩ := a
    by_cases same : p = place
    · have other : (q == p) = false := beq_eq_false_iff_ne.2 fun here => h (here.trans same)
      rw [List.filter_cons_of_neg (by simpa using same), ih, List.lookup_cons, other]
    · rw [List.filter_cons_of_pos (by simpa using same), List.lookup_cons, List.lookup_cons, ih]

theorem at?_put_self (out : w.at? place ≠ some .directory) (entry : Entry) :
    (w.put place entry).at? place = some entry := by
  have below : place ≠ [] := by
    rintro rfl
    exact out at?_nil
  rw [at?, if_neg below, put, List.lookup_cons_self]

theorem at?_put_ne (h : q ≠ place) (entry : Entry) : (w.put place entry).at? q = w.at? q := by
  have other : (q == place) = false := beq_eq_false_iff_ne.2 h
  rw [at?, at?, put, List.lookup_cons, other, lookup_filter_ne h]

/-! ### Following segments -/

theorem follow_cons_eq_ok {segment : String} {rest : List String} :
    w.follow place (segment :: rest) = .ok q ↔
      w.at? place = some .directory ∧ segment.utf8ByteSize ≤ longestName ∧
        w.follow (w.stepTo place segment) rest = .ok q := by
  rw [follow]
  split
  · next h => simp [h]
  · next h => simp [h]
  · next h => simp [h]
  · next h =>
    split
    · next long => simp [Nat.not_le.2 long]
    · next short => simp [h, Nat.not_lt.1 short]

/-- Where the segments of a path are followed from. -/
def start (w : World) (path : String) : Place :=
  if path.toList.head? = some '/' then [] else w.workingDirectory

theorem locateSegments_eq_ok {segs : List String} : w.locateSegments path segs = .ok place ↔
    path ≠ "" ∧ path.utf8ByteSize ≤ longestPath ∧
      w.follow (w.start path) segs.reverse = .ok place := by
  rw [locateSegments]
  split
  · next empty => simp [empty]
  · next filled =>
    split
    · next long => simp [Nat.not_le.2 long]
    · next short => simp [filled, Nat.not_lt.1 short, start]

/-- Behind a directory, empty segments lead nowhere else. -/
theorem follow_append_empty {front empties : List String} (led : w.follow place front = .ok q)
    (here : w.at? q = some .directory) (empty : ∀ s ∈ empties, s = "") :
    w.follow place (front ++ empties) = .ok q := by
  induction front generalizing place with
  | nil =>
    cases led
    induction empties with
    | nil => rfl
    | cons s rest ih =>
      obtain ⟨rfl, behind⟩ := List.forall_mem_cons.1 empty
      exact follow_cons_eq_ok.2 ⟨here, by decide, ih behind⟩
  | cons s front ih =>
    obtain ⟨way, short, led⟩ := follow_cons_eq_ok.1 led
    exact follow_cons_eq_ok.2 ⟨way, short, ih led⟩

/-- Slashes behind a new directory lead to it. -/
theorem locate_of_locateNew (led : w.locateNew path = .ok q) (here : w.at? q = some .directory) :
    w.locate path = .ok q := by
  obtain ⟨filled, short, led⟩ := locateSegments_eq_ok.1 led
  refine locateSegments_eq_ok.2 ⟨filled, short, ?_⟩
  have parts := List.takeWhile_append_dropWhile (p := (· = "")) (l := PathName.segments path)
  rw [← parts, List.reverse_append]
  refine follow_append_empty led here fun s inside => ?_
  simpa using List.all_eq_true.1 List.all_takeWhile s (List.mem_reverse.1 inside)

/-- A path that asks for no directory does not end in an empty segment. -/
theorem locateNew_eq_locate (h : path.toList.getLast? ≠ some '/') :
    w.locateNew path = w.locate path := by
  by_cases filled : path = ""
  · rw [locateNew, locate, locateSegments, locateSegments, if_pos filled, if_pos filled]
  obtain ⟨name, front, parts⟩ := List.exists_cons_of_ne_nil (PathName.segments_ne_nil path)
  suffices named : name ≠ "" by
    rw [locateNew, locate, parts, List.dropWhile_cons_of_neg (by simpa using named)]
  rintro rfl
  have same := PathName.ofSegments_segments path
  rw [parts] at same
  cases front with
  | nil => exact filled same.symm
  | cons s front =>
    have inside : ∀ t ∈ s :: front, PathName.IsSegment t := fun t member =>
      PathName.isSegment_of_mem (parts ▸ List.mem_cons_of_mem _ member)
    rw [PathName.ofSegments_cons PathName.isSegment_empty (List.cons_ne_nil _ _) inside] at same
    exact h (by simp [← same])

/-! ### Growing -/

/-- The directories of a world stay where they are. -/
structure Grows (w w' : World) : Prop where
  workingDirectory : w'.workingDirectory = w.workingDirectory
  leadsTo : w'.leadsTo = w.leadsTo
  directories : ∀ place, w.at? place = some .directory → w'.at? place = some .directory

theorem Grows.follow (h : w.Grows w') {segs : List String} (led : w.follow place segs = .ok q) :
    w'.follow place segs = .ok q := by
  induction segs generalizing place with
  | nil => exact led
  | cons segment rest ih =>
    obtain ⟨here, short, led⟩ := follow_cons_eq_ok.1 led
    have step : w'.stepTo place segment = w.stepTo place segment := by
      rw [stepTo, stepTo, h.leadsTo]
    exact follow_cons_eq_ok.2 ⟨h.directories _ here, short, step ▸ ih led⟩

theorem Grows.locateSegments (h : w.Grows w') {segs : List String}
    (led : w.locateSegments path segs = .ok q) : w'.locateSegments path segs = .ok q := by
  obtain ⟨filled, short, led⟩ := locateSegments_eq_ok.1 led
  have same : w'.start path = w.start path := by rw [start, start, h.workingDirectory]
  exact locateSegments_eq_ok.2 ⟨filled, short, same ▸ h.follow led⟩

theorem Grows.locate (h : w.Grows w') (led : w.locate path = .ok q) : w'.locate path = .ok q :=
  h.locateSegments led

theorem grows_put (h : w.at? place ≠ some .directory) (entry : Entry) :
    w.Grows (w.put place entry) :=
  ⟨rfl, rfl, fun q here => (at?_put_ne (fun same : q = place => h (same ▸ here)) entry).trans here⟩

/-! ### What can be seen -/

/-- What an entry shows. -/
def shown : Entry → Content
  | .file bytes => .file bytes
  | .directory => .directory
  | .device _ => .device

instance : View World where
  Node := Place
  reach w path := (w.locate path).toOption.filter fun place => (w.at? place).isSome
  content w place := (w.at? place).map shown
  printed := World.printed

theorem reach_eq_some : reach w path = some place ↔
    w.locate path = .ok place ∧ ∃ entry, w.at? place = some entry := by
  change (w.locate path).toOption.filter _ = some place ↔ _
  rw [Option.filter_eq_some_iff, Option.isSome_iff_exists]
  cases w.locate path <;> simp [Except.toOption]

/-- What is put where there is no directory can be seen there, and nothing else changes. -/
theorem puts (entry : Entry) (out : w.at? place ≠ some .directory)
    (led : (w.put place entry).locate path = .ok place) :
    Puts path place (shown entry) w (w.put place entry) where
  reached := reach_eq_some.2 ⟨led, entry, at?_put_self out entry⟩
  placed := congrArg (Option.map shown) (at?_put_self out entry)
  others k apart := congrArg (Option.map shown) (at?_put_ne apart entry)
  kept p k reached := by
    obtain ⟨led, old, here⟩ := reach_eq_some.1 reached
    refine reach_eq_some.2 ⟨(grows_put out entry).locate led, ?_⟩
    by_cases same : k = place
    · exact ⟨entry, same ▸ at?_put_self out entry⟩
    · exact ⟨old, (at?_put_ne same entry).trans here⟩
  printed := rfl

theorem follow_append_text (w : World) (channel : Channel) (text : String) (place : Place)
    (segs : List String) : (w.append channel text).follow place segs = w.follow place segs := by
  induction segs generalizing place with
  | nil => rfl
  | cons segment rest ih =>
    have step : (w.append channel text).stepTo place segment = w.stepTo place segment := by
      cases channel <;> rfl
    have here : (w.append channel text).at? place = w.at? place := by
      cases channel <;> rfl
    rw [follow, follow, here, step, ih]

/-- What is printed shows in no file. -/
theorem sameFiles_append (w : World) (channel : Channel) (text : String) :
    SameFiles w (w.append channel text) := by
  have here : (w.append channel text).at? = w.at? := by
    cases channel <;> rfl
  have led : (w.append channel text).locate = w.locate := by
    funext path
    have home : (w.append channel text).workingDirectory = w.workingDirectory := by
      cases channel <;> rfl
    rw [locate, locate, locateSegments, locateSegments, home]
    simp only [follow_append_text]
  constructor
  · funext path
    change ((w.append channel text).locate path).toOption.filter _ = _
    rw [led, here]
    rfl
  · funext place
    change ((w.append channel text).at? place).map shown = _
    rw [here]
    rfl

theorem prints_append (w : World) (channel : Channel) (text : String) :
    Prints channel text w (w.append channel text) := by
  refine ⟨sameFiles_append w channel text, ?_, fun other apart => ?_⟩
  · cases channel <;> rfl
  · cases channel <;> cases other <;> first | rfl | exact absurd rfl apart

/-! ### Reading, writing and printing -/

theorem read_eq_ok {bytes : ByteArray} (h : w.read path = .ok bytes) :
    ∃ place, w.locate path = .ok place ∧
      (w.at? place = some (.file bytes) ∨ ∃ device, w.at? place = some (.device device)) := by
  rw [read] at h
  cases led : w.locate path with
  | error e => simp [led, bind, Except.bind] at h
  | ok place =>
    simp only [led, bind, Except.bind] at h
    refine ⟨place, rfl, ?_⟩
    split at h
    · cases h
    · cases h
    · next device here => exact .inr ⟨device, here⟩
    · next bytes' here =>
      split at h
      · cases h
      · cases h
        exact .inl here

/-- Printing appends the text, or a front of it where it is refused. -/
theorem print_cases (w : World) (channel : Channel) (text : String) :
    w.print channel text = (.ok (), w.append channel text) ∨
      ∃ front e, front.toList <+: text.toList ∧
        w.print channel text = (.error e, w.append channel front) := by
  rw [print]
  split
  · exact .inl rfl
  · next room _ =>
    dsimp only
    split
    · exact .inl rfl
    · refine .inr ⟨_, _, ?_, rfl⟩
      rw [String.toList_ofList]
      exact List.take_prefix _ _

/-- A text that is written to a device shows in no file. -/
theorem sameFiles_writeTo {content : String} {device : Device}
    (h : w.writeTo content device = .ok w') : SameFiles w w' := by
  cases device with
  | sink =>
    cases h
    exact .refl w
  | full =>
    rw [writeTo] at h
    split at h
    · cases h
      exact .refl w
    · cases h
  | channel channel =>
    rw [writeTo] at h
    obtain same | ⟨front, e, -, same⟩ := w.print_cases channel content <;> rw [same] at h <;>
      cases h
    exact sameFiles_append w channel content

/-- A text is put where there is no directory, or a device takes it. -/
theorem write_eq_ok {content : String} (h : w.write path content = .ok w') :
    ∃ place, w.locate path = .ok place ∧
      (w.at? place ≠ some .directory ∧ w' = w.put place (.file content.toUTF8) ∨
        (∃ device, w.at? place = some (.device device)) ∧ SameFiles w w') := by
  rw [write] at h
  split at h
  · cases parent : w.locateParent path <;> rw [parent] at h <;> cases h
  · next other =>
    rw [locateNew_eq_locate other] at h
    cases led : w.locate path with
    | error e => simp [led, bind, Except.bind] at h
    | ok place =>
      simp only [led, bind, Except.bind] at h
      refine ⟨place, rfl, ?_⟩
      split at h
      · cases h
      · next device here => exact .inr ⟨⟨device, here⟩, sameFiles_writeTo h⟩
      · next out _ =>
        split at h
        · cases h
        · cases h
          exact .inl ⟨out, rfl⟩

theorem makeDirectory_eq_ok (h : w.makeDirectory path = .ok w') :
    ∃ place, w.locateNew path = .ok place ∧ w.at? place = none ∧ w' = w.put place .directory := by
  rw [makeDirectory] at h
  cases led : w.locateNew path with
  | error e => simp [led, bind, Except.bind] at h
  | ok place =>
    simp only [led, bind, Except.bind] at h
    split at h
    · cases h
    · next free =>
      cases h
      exact ⟨place, rfl, free, rfl⟩

/-- A world goes on in the new one exactly if there is one. -/
theorem attempt_cases (w : World) (r : Except FileError World) :
    (∃ w', r = .ok w' ∧ w.attempt r = (.ok (), w')) ∨
      ∃ e, r = .error e ∧ w.attempt r = (.error e, w) := by
  cases r with
  | ok w' => exact .inl ⟨w', rfl, rfl⟩
  | error e => exact .inr ⟨e, rfl, rfl⟩

/-- **A world is a host with the laws.** -/
instance : LawfulHost World where
  kindOf w _ := .refl w
  filesIn w _ := .refl w
  now w := .refl w
  read w _ := .refl w
  read_ok w path bytes read := by
    obtain ⟨place, led, here | ⟨device, here⟩⟩ := read_eq_ok read
    · exact ⟨place, reach_eq_some.2 ⟨led, _, here⟩, .inl (congrArg (Option.map shown) here)⟩
    · exact ⟨place, reach_eq_some.2 ⟨led, _, here⟩, .inr (congrArg (Option.map shown) here)⟩
  write_ok w path text written := by
    change (w.attempt (w.write path text)).1 = _ at written
    change Writes path text w (w.attempt (w.write path text)).2
    obtain ⟨w', done, same⟩ | ⟨e, failed, same⟩ := w.attempt_cases (w.write path text)
    · rw [same]
      obtain ⟨place, led, ⟨out, rfl⟩ | ⟨⟨device, here⟩, stays⟩⟩ := write_eq_ok done
      · exact ⟨place, .inl (puts (.file _) out ((grows_put out _).locate led))⟩
      · exact ⟨place, .inr ⟨stays, reach_eq_some.2 ⟨led, _, here⟩,
          congrArg (Option.map shown) here⟩⟩
    · rw [same] at written
      cases written
  write_error w path text e refused := by
    change (w.attempt (w.write path text)).1 = _ at refused
    change Still w (w.attempt (w.write path text)).2
    obtain ⟨w', done, same⟩ | ⟨e, failed, same⟩ := w.attempt_cases (w.write path text)
    · rw [same] at refused
      cases refused
    · rw [same]
      exact .refl w
  makeDirectory_ok w path made := by
    change (w.attempt (w.makeDirectory path)).1 = _ at made
    change ∃ n, _ ∧ Puts path n _ w (w.attempt (w.makeDirectory path)).2
    obtain ⟨w', done, same⟩ | ⟨e, failed, same⟩ := w.attempt_cases (w.makeDirectory path)
    · rw [same]
      obtain ⟨place, led, free, rfl⟩ := makeDirectory_eq_ok done
      have out : w.at? place ≠ some .directory := by
        rw [free]
        exact nofun
      refine ⟨place, congrArg (Option.map shown) free, puts .directory out ?_⟩
      exact locate_of_locateNew ((grows_put out _).locateSegments led) (at?_put_self out _)
    · rw [same] at made
      cases made
  makeDirectory_error w path e refused := by
    change (w.attempt (w.makeDirectory path)).1 = _ at refused
    change Still w (w.attempt (w.makeDirectory path)).2
    obtain ⟨w', done, same⟩ | ⟨e, failed, same⟩ := w.attempt_cases (w.makeDirectory path)
    · rw [same] at refused
      cases refused
    · rw [same]
      exact .refl w
  print_ok w channel text printed := by
    change (w.print channel text).1 = _ at printed
    change Prints channel text w (w.print channel text).2
    obtain same | ⟨front, e, -, same⟩ := w.print_cases channel text
    · rw [same]
      exact prints_append w channel text
    · rw [same] at printed
      cases printed
  print_error w channel text e refused := by
    change (w.print channel text).1 = _ at refused
    change ∃ front, _ ∧ Prints channel front w (w.print channel text).2
    obtain same | ⟨front, e, before, same⟩ := w.print_cases channel text
    · rw [same] at refused
      cases refused
    · rw [same]
      exact ⟨front, before, prints_append w channel front⟩

end JackCompiler.World
