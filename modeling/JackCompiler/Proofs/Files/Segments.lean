import JackCompiler.Build.Run
import JackCompiler.Proofs.Text.Words
/-!
# Segments of paths

A path is its segments with slashes between, so a path is known by its segments, and segments
without slashes are those of the path that they make. A path that gets another extension names
nothing, or a name with this extension: an output path never names a source.

        src/Main.jack   ──▶   src/Main.vm
        src/..jack      ──▶   src/..
-/

namespace JackCompiler

/-- The pieces of a text do not contain the separator. -/
theorem separator_notMem_pieces {separator : Char} (s : List Char) :
    ∀ piece ∈ pieces separator s, separator ∉ piece := by
  induction h : s.length using Nat.strongRecOn generalizing s with
  | ind n ih =>
    by_cases inside : separator ∈ s
    · obtain ⟨front, rest, rfl, first⟩ := List.eq_append_cons_of_mem inside
      rw [pieces_append first]
      refine List.forall_mem_cons.2 ⟨first, ih rest.length ?_ rest rfl⟩
      simp [← h]
      omega
    · rw [pieces_of_notMem inside]
      simpa using inside

namespace PathName

/-- A text that no slash divides, as the name of a file. -/
def IsSegment (s : String) : Prop := '/' ∉ s.toList

instance (s : String) : Decidable (IsSegment s) := inferInstanceAs (Decidable (_ ∉ _))

theorem isSegment_of_mem {path s : String} (h : s ∈ segments path) : IsSegment s := by
  rw [segments, List.mem_reverse, List.mem_map] at h
  obtain ⟨piece, member, rfl⟩ := h
  rw [IsSegment, String.toList_ofList]
  exact separator_notMem_pieces _ _ member

theorem isSegment_empty : IsSegment "" := List.not_mem_nil

theorem segments_ne_nil (path : String) : segments path ≠ [] := by
  simp [segments, pieces_eq_splitOn]

theorem toList_ofSegments (segs : List String) :
    (ofSegments segs).toList = ['/'].intercalate (segs.reverse.map String.toList) := by
  rw [ofSegments, String.toList_intercalate]
  rfl

/-- A path is its segments joined. -/
theorem ofSegments_segments (path : String) : ofSegments (segments path) = path := by
  rw [← String.toList_inj, toList_ofSegments, segments, List.reverse_reverse, List.map_map,
    pieces_eq_splitOn]
  have same : String.toList ∘ String.ofList = id := funext fun _ => String.toList_ofList
  rw [same, List.map_id, List.intercalate_splitOn]

/-- Segments that are joined are the segments of the path. -/
theorem segments_ofSegments {segs : List String} (nonempty : segs ≠ [])
    (h : ∀ s ∈ segs, IsSegment s) : segments (ofSegments segs) = segs := by
  rw [segments, toList_ofSegments, pieces_eq_splitOn, List.splitOn_intercalate]
  · simp [List.map_reverse, Function.comp_def]
  · simpa [IsSegment] using h
  · simpa using nonempty

/-- A slash separates the segments behind it from those in front of it. -/
theorem segments_slash (a b : String) : segments (a ++ "/" ++ b) = segments b ++ segments a := by
  have slash : "/".toList = ['/'] := rfl
  simp only [segments, pieces_eq_splitOn, List.splitOn_eq_splitOnP, String.toList_append, slash,
    List.append_assoc, List.singleton_append]
  rw [List.splitOnP_append_cons _ _ (by decide), List.map_append, List.reverse_append]

theorem segments_of_isSegment {s : String} (h : IsSegment s) : segments s = [s] := by
  rw [segments, pieces_of_notMem h]
  simp

theorem ofSegments_singleton (s : String) : ofSegments [s] = s := by
  simp [ofSegments]

theorem ofSegments_cons {s : String} {segs : List String} (hs : IsSegment s) (nonempty : segs ≠ [])
    (h : ∀ t ∈ segs, IsSegment t) : ofSegments (s :: segs) = ofSegments segs ++ "/" ++ s := by
  rw [← ofSegments_segments (ofSegments segs ++ "/" ++ s), segments_slash,
    segments_of_isSegment hs, segments_ofSegments nonempty h]
  rfl

/-! ### Inside a directory -/

/-- The segments that stand in front of a name inside a directory: those of the directory, a slash
at its end apart. -/
def inside (directory : String) : List String :=
  match segments directory with
  | "" :: front => front
  | segs => segs

/-- A name inside a directory stands behind the segments of the directory. -/
theorem segments_join {directory name : String} (h : IsSegment name) :
    segments (join directory name) = name :: inside directory := by
  rw [join]
  split
  · next empty => rw [segments_of_isSegment h, empty]; rfl
  · next filled =>
    split
    · next closed =>
      obtain ⟨front, same⟩ := List.getLast?_eq_some_iff.1 closed
      have cut : directory = String.ofList front ++ "/" ++ "" := by
        rw [← String.toList_inj, same]
        simp
      have whole : directory ++ name = String.ofList front ++ "/" ++ name := by
        rw [cut, String.append_empty]
      have parts : segments directory = "" :: segments (String.ofList front) := by
        rw [cut, segments_slash]
        rfl
      rw [whole, segments_slash, segments_of_isSegment h, inside, parts]
      rfl
    · next openEnded =>
      rw [segments_slash, segments_of_isSegment h, inside]
      split
      · next front parts =>
        have segs : ∀ t ∈ front, IsSegment t :=
          fun t ht => isSegment_of_mem (parts ▸ List.mem_cons_of_mem _ ht)
        have whole := ofSegments_segments directory
        rw [parts] at whole
        cases front with
        | nil => exact absurd (whole.symm.trans (ofSegments_singleton _)) filled
        | cons t front =>
          rw [ofSegments_cons isSegment_empty (List.cons_ne_nil _ _) segs] at whole
          refine absurd ?_ openEnded
          rw [← whole]
          simp
      · rfl

/-! ### Extensions -/

theorem reverse_append_dot {stem extension : String} :
    (stem ++ "." ++ extension).toList.reverse =
      extension.toList.reverse ++ '.' :: stem.toList.reverse := by
  simp

/-- A name is cut in front of its last dot, if there is anything in front of that. -/
theorem splitExtension_eq_some {name stem extension : String} :
    splitExtension name = some (stem, extension) ↔
      name = stem ++ "." ++ extension ∧ '.' ∉ extension.toList ∧ stem ≠ "" := by
  constructor
  · intro h
    have parts := List.takeWhile_append_dropWhile (p := (· ≠ '.')) (l := name.toList.reverse)
    have before : '.' ∉ name.toList.reverse.takeWhile (· ≠ '.') := fun member => by
      simpa using List.all_eq_true.1 List.all_takeWhile _ member
    rw [splitExtension] at h
    split at h
    · cases h
    · cases h
    · next c back nonempty cut =>
      have dot : c = '.' := by
        have head := List.head?_dropWhile_not (· ≠ '.') name.toList.reverse
        rw [cut] at head
        simpa using head
      cases h
      rw [cut, dot] at parts
      refine ⟨?_, ?_, fun empty => nonempty ?_⟩
      · rw [← String.toList_inj, ← List.reverse_inj, reverse_append_dot]
        simpa using parts.symm
      · simpa using before
      · have : back = [] := by simpa using congrArg String.toList empty
        rw [this]
  · rintro ⟨rfl, dots, nonempty⟩
    have plain : ∀ c ∈ extension.toList.reverse, c ≠ '.' :=
      fun c hc dot => dots (dot ▸ List.mem_reverse.1 hc)
    obtain ⟨c, back, same⟩ := List.exists_cons_of_ne_nil (l := stem.toList.reverse)
      (by simpa using nonempty)
    have dropped : (stem ++ "." ++ extension).toList.reverse.dropWhile (· ≠ '.') =
        '.' :: c :: back := by
      rw [reverse_append_dot, List.dropWhile_append_of_pos (by simpa using plain), same]
      rfl
    have taken : (stem ++ "." ++ extension).toList.reverse.takeWhile (· ≠ '.') =
        extension.toList.reverse := by
      rw [reverse_append_dot, List.takeWhile_append_of_pos (by simpa using plain)]
      simp
    rw [splitExtension]
    simp only [dropped, taken, List.reverse_reverse, String.ofList_toList]
    rw [← same, List.reverse_reverse, String.ofList_toList]

/-- An extension at the end shows in the last character. -/
theorem append_ne {extension other : String} (stem : String) (filled : extension ≠ "")
    (h : other.toList.getLast? ≠ extension.toList.getLast?) : stem ++ extension ≠ other := by
  rintro rfl
  obtain ⟨c, rest, same⟩ := List.exists_cons_of_ne_nil (l := extension.toList)
    fun empty => filled (String.toList_inj.1 empty)
  rw [String.toList_append, same, List.getLast?_append, List.getLast?_cons, Option.some_or] at h
  exact h rfl

theorem dropIdle_suffix (segs : List String) : dropIdle segs <:+ segs := by
  induction segs using dropIdle.induct with
  | case1 => exact List.suffix_rfl
  | case2 => exact List.nil_suffix
  | case3 s h =>
    have kept : dropIdle [s] = [s] := by rw [dropIdle, if_neg h]
    exact ⟨[], kept⟩
  | case4 s t rest idle ih =>
    rw [dropIdle, if_pos idle]
    exact ih.trans (List.suffix_cons s _)
  | case5 s t rest h =>
    have kept : dropIdle (s :: t :: rest) = s :: t :: rest := by rw [dropIdle, if_neg h]
    exact ⟨[], kept⟩

/-- What is left does not end in an empty segment. -/
theorem ne_empty_of_dropIdle {segs rest : List String} {s : String}
    (h : dropIdle segs = s :: rest) : s ≠ "" := by
  induction segs using dropIdle.induct with
  | case1 => cases h
  | case2 => cases h
  | case3 s' filled =>
    rw [dropIdle, if_neg filled] at h
    cases h
    exact filled
  | case4 s' t rest' idle ih =>
    rw [dropIdle, if_pos idle] at h
    exact ih h
  | case5 s' t rest' named =>
    rw [dropIdle, if_neg named] at h
    cases h
    exact fun empty => named (.inl empty)

theorem dropIdle_cons {s : String} (h : s ≠ "") (h' : s ≠ ".") (rest : List String) :
    dropIdle (s :: rest) = s :: rest := by
  cases rest <;> simp [dropIdle, h, h']

/-- A path that is split has its name behind the segments in front of it. -/
theorem split?_eq_some {path name : String} {front : List String}
    (h : split? path = some (front, name)) :
    name ≠ "" ∧ ∀ s ∈ name :: front, IsSegment s := by
  rw [split?] at h
  split at h
  · cases h
  · next s rest kept =>
    split at h
    · cases h
    · cases h
      exact ⟨ne_empty_of_dropIdle kept,
        fun s inside => isSegment_of_mem ((kept ▸ dropIdle_suffix _).subset inside)⟩

/-- A name with the extension of outputs is the name of a path that ends in it. -/
theorem name?_output {path stem : String} {front : List String}
    (h : segments path = (stem ++ ".vm") :: front) : name? path = some (stem ++ ".vm") := by
  have filled : stem ++ ".vm" ≠ "" := append_ne stem (by decide) (by decide)
  have dot : stem ++ ".vm" ≠ "." := append_ne stem (by decide) (by decide)
  have dots : stem ++ ".vm" ≠ ".." := append_ne stem (by decide) (by decide)
  simp [name?, split?, h, dropIdle_cons filled dot, dot, dots]

/-- The stem of a name that gets the extension of outputs. -/
theorem name?_ofSegments {stem name : String} {front : List String} (nonempty : stem ≠ "")
    (all : ∀ s ∈ stem :: front, IsSegment s)
    (h : name? (ofSegments ((stem ++ "." ++ outputExtension) :: front)) = some name) :
    ∃ stem, stem ≠ "" ∧ IsSegment (stem ++ ".vm") ∧ name = stem ++ ".vm" := by
  obtain ⟨segment, behind⟩ := List.forall_mem_cons.1 all
  have output : IsSegment (stem ++ ".vm") := by simpa [IsSegment] using segment
  have spelled : stem ++ "." ++ outputExtension = stem ++ ".vm" := String.append_assoc
  rw [spelled, name?_output (segments_ofSegments (List.cons_ne_nil _ _)
    (List.forall_mem_cons.2 ⟨output, behind⟩))] at h
  exact ⟨stem, nonempty, output, (Option.some.inj h).symm⟩

/-- A path with the extension of outputs names nothing, or a name with this extension. -/
theorem name?_setExtension {path name : String}
    (h : name? (setExtension path outputExtension) = some name) :
    ∃ stem, stem ≠ "" ∧ IsSegment (stem ++ ".vm") ∧ name = stem ++ ".vm" := by
  rw [setExtension] at h
  split at h
  · next none => simp [name?, none] at h
  · next front old split =>
    obtain ⟨filled, all⟩ := split?_eq_some split
    obtain ⟨whole, behind⟩ := List.forall_mem_cons.1 all
    cases cut : splitExtension old with
    | none =>
      simp only [cut] at h
      exact name?_ofSegments filled all h
    | some parts =>
      obtain ⟨stem, extension⟩ := parts
      obtain ⟨rfl, -, nonempty⟩ := splitExtension_eq_some.1 cut
      simp only [IsSegment, String.toList_append, List.mem_append, not_or] at whole
      simp only [cut] at h
      exact name?_ofSegments nonempty (List.forall_mem_cons.2 ⟨whole.1.1, behind⟩) h

theorem withExtension_eq (path extension : String) :
    ∃ cut, withExtension path extension = setExtension cut extension := by
  rw [withExtension]
  split
  · exact ⟨_, rfl⟩
  · exact ⟨_, rfl⟩

/-- A path that names nothing, or a name with the extension of outputs, is no source. -/
theorem isSource_of_name? {path : String}
    (h : ∀ name, name? path = some name → ∃ stem, stem ≠ "" ∧ name = stem ++ ".vm") :
    isSource path = false := by
  rw [isSource, decide_eq_false_iff_not, extension?]
  cases named : name? path with
  | none => exact nofun
  | some name =>
    obtain ⟨stem, nonempty, rfl⟩ := h name named
    have cut : splitExtension (stem ++ ".vm") = some (stem, "vm") :=
      splitExtension_eq_some.2 ⟨by rw [String.append_assoc]; rfl, by decide, nonempty⟩
    rw [Option.bind_some, cut, Option.map_some]
    exact (by decide : some "vm" ≠ some sourceExtension)

/-- An output path stands beside the source, or has its name inside the output directory. -/
theorem outputPath_cases (outDir : Option String) (path : String) :
    outputPath outDir path = withExtension path outputExtension ∨
      ∃ directory name, name? (withExtension path outputExtension) = some name ∧
        outputPath outDir path = join directory name := by
  cases outDir with
  | none =>
    left
    rfl
  | some directory =>
    cases named : name? (withExtension path outputExtension) with
    | none =>
      left
      unfold outputPath
      simp only [named]
    | some name =>
      refine .inr ⟨directory, name, rfl, ?_⟩
      unfold outputPath
      simp only [named]

/-- **An output path names no source.** -/
theorem isSource_outputPath (outDir : Option String) (path : String) :
    isSource (outputPath outDir path) = false := by
  obtain ⟨old, same⟩ := withExtension_eq path outputExtension
  obtain beside | ⟨directory, name, named, inside⟩ := outputPath_cases outDir path
  · rw [beside, same]
    refine isSource_of_name? fun name named => ?_
    obtain ⟨stem, nonempty, -, spelled⟩ := name?_setExtension named
    exact ⟨stem, nonempty, spelled⟩
  · rw [same] at named
    obtain ⟨stem, nonempty, segment, spelled⟩ := name?_setExtension named
    rw [inside, spelled]
    refine isSource_of_name? fun name' named' => ⟨stem, nonempty, ?_⟩
    rw [name?_output (segments_join segment)] at named'
    exact (Option.some.inj named').symm

end PathName

end JackCompiler
