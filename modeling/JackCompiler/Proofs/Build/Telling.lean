import JackCompiler.Build.Program
import JackCompiler.Proofs.Build.Frame
import JackCompiler.Proofs.Build.Reports
import JackCompiler.Proofs.Legibility
/-!
# What the program tells

The report has an entry for every file that a run attempts, in the order of the attempts, and its
numbers count the entries. An entry of a file that is compiled counts the routines of the class and
the lines of its instructions. Only the last entry can tell of an error, as the run ends there. A
report that is asked for is written whatever becomes of the run, if its path can be written to, and
it can be read back; the program ends with the status of success if nothing at all has failed. A
channel that refuses a text ends the program with a status of its own; where this stops the run, no
report is written.

        sources        A   B   C   D
        entries        A   B   C                3 in total = 2 succeeded + 1 failed
        errors                 ✗
-/

namespace JackCompiler

/-! ### What is counted -/

/-- The number of lines of a text. Every line ends with a newline. -/
def lineCount (text : String) : Nat := text.toList.count '\n'

/-- The text of a chunk has a line for each instruction, if these are legible. -/
theorem Chunk.lineCount_text {c : Chunk} (h : LegibleCode c.instructions) :
    lineCount c.text = c.count := by
  obtain ⟨is⟩ := c
  rw [lineCount, text, lines, List.map_map, String.toList_join, count]
  induction is with
  | nil => rfl
  | cons i is ih =>
    obtain ⟨first, rest⟩ := List.forall_mem_cons.1 h
    have none : i.text.toList.count '\n' = 0 := List.count_eq_zero.2 first.newline_notMem
    simp only [List.map_cons, List.flatMap_cons, List.count_append, ih rest, Function.comp_apply,
      String.toList_append, none, List.length_cons]
    simp [Nat.add_comm]

/-- Each routine opens once. -/
theorem countP_opensRoutine {codes : List (List Instruction)} (h : ∀ code ∈ codes, IsRoutine code) :
    codes.flatten.countP (·.opensRoutine) = codes.length := by
  induction codes with
  | nil => rfl
  | cons code codes ih =>
    obtain ⟨first, rest⟩ := List.forall_mem_cons.1 h
    obtain ⟨name, count, behind, rfl, none⟩ := first.opens
    have others : behind.countP (·.opensRoutine) = 0 :=
      List.countP_eq_zero.2 fun i hi => by simp [none i hi]
    rw [List.flatten_cons, List.countP_append, ih rest, List.countP_cons, others, List.length_cons]
    simp [Instruction.opensRoutine, Nat.add_comm]

/-- A chunk opens as many routines as its class has. -/
theorem ClassTree.routineCount_chunk {c : ClassTree} {chunk : Chunk} (h : c.chunk = .ok chunk) :
    chunk.routineCount = c.routines.length := by
  have routines := chunk_routines h
  have flat : chunk.routines.flatten = chunk.instructions := List.flatten_splitBy ..
  rw [Chunk.routineCount, ← flat, countP_opensRoutine, routines.length_eq]
  intro code member
  obtain ⟨r, -, generated⟩ := exists_mem_of_forall₂ routines member
  exact Routine.code_isRoutine generated

/-! ### What the report counts -/

/-- The numbers of a report are those of its entries, and only the last entry can tell of an
error. -/
structure Report.Consistent (r : Report) : Prop where
  total : r.total = UInt64.ofNat r.files.length
  sum : r.total = r.succeeded + r.failed
  succeeded : r.succeeded = UInt64.ofNat (r.files.countP (·.error.isNone))
  failed : r.failed = UInt64.ofNat (r.files.countP (·.error.isSome))
  last : ∀ entry ∈ r.files.dropLast, entry.error = none

/-- Nothing has failed so far. -/
structure Report.Flawless (r : Report) : Prop where
  total : r.total = UInt64.ofNat r.files.length
  succeeded : r.succeeded = r.total
  failed : r.failed = 0
  entries : ∀ entry ∈ r.files, entry.error = none

namespace Report

variable {r : Report}

theorem flawless_empty : empty.Flawless := ⟨rfl, rfl, rfl, List.forall_mem_nil _⟩

theorem Flawless.addSuccess (h : r.Flawless) (f : CompiledFile) : (r.addSuccess f).Flawless where
  total := by
    rw [Report.addSuccess, h.total]
    simp [UInt64.ofNat_add]
  succeeded := congrArg (· + 1) h.succeeded
  failed := h.failed
  entries := List.forall_mem_append.2 ⟨h.entries, List.forall_mem_singleton.2 rfl⟩

theorem Flawless.addAll (h : r.Flawless) (files : List CompiledFile) :
    (files.foldl Report.addSuccess r).Flawless := by
  induction files generalizing r with
  | nil => exact h
  | cons f files ih => exact ih (h.addSuccess f)

/-- None of the entries has failed, and all have succeeded. -/
theorem Flawless.counts (h : r.Flawless) :
    r.files.countP (·.error.isNone) = r.files.length ∧ r.files.countP (·.error.isSome) = 0 := by
  constructor
  · exact List.countP_eq_length.2 fun entry inside => by simp [h.entries entry inside]
  · exact List.countP_eq_zero.2 fun entry inside => by simp [h.entries entry inside]

theorem Flawless.consistent (h : r.Flawless) : r.Consistent where
  total := h.total
  sum := by rw [h.succeeded, h.failed, UInt64.add_zero]
  succeeded := by rw [h.succeeded, h.total, h.counts.1]
  failed := by
    rw [h.failed, h.counts.2]
    rfl
  last entry inside := h.entries entry (List.mem_of_mem_dropLast inside)

/-- The first failure is the last entry. -/
theorem Flawless.addFailure (h : r.Flawless) (path : String) (e : BuildError) :
    (r.addFailure path e).Consistent where
  total := by
    rw [Report.addFailure, h.total]
    simp [UInt64.ofNat_add]
  sum := by
    rw [Report.addFailure, h.succeeded, h.failed, UInt64.zero_add]
  succeeded := by
    rw [Report.addFailure, List.countP_append, h.counts.1, h.succeeded, h.total]
    rfl
  failed := by
    rw [Report.addFailure, List.countP_append, h.counts.2, h.failed]
    rfl
  last := by
    rw [Report.addFailure, List.dropLast_concat]
    exact h.entries

end Report

namespace Build

variable {σ : Type} [Host (StateM σ)] [View σ] {o : Options} {s s' s'' : σ} {path : String}
  {file : CompiledFile}

/-! ### What the entries tell -/

/-- The entries tell of attempts, one after the other, from one state to another one. Of a file that
is compiled, and left where its output goes, they tell the routines of the class and the lines of
the text that is put out, of one that fails the error, and nothing comes behind it. An attempt at
which the program ends has no entry. -/
inductive Told (o : Options) : σ → List FileEntry → σ → Prop
  | nothing (s : σ) : Told o s [] s
  | failed {s s' : σ} {path : String} {e : BuildError}
    (attempt : outcome (compileFile o path) s = (.error e, s')) (told : e.isFatal = false) :
    Told o s [⟨path, none, 0, 0, some e.message⟩] s'
  | stopped {s s' : σ} {path : String} {channel : Channel} {cause : FileError}
    (attempt : outcome (compileFile o path) s = (.error (.unprinted channel cause), s')) :
    Told o s [] s'
  | compiled {s s' s'' : σ} {path source : String} {tree : ClassTree} {file : CompiledFile}
    {entries : List FileEntry} (attempt : outcome (compileFile o path) s = (.ok file, s'))
    (read : Reads s path source) (parsed : ClassTree.ofSource source = .ok tree)
    (generated : tree.chunk = .ok file.chunk) (left : Leaves o [file] "" s s')
    (rest : Told o s' entries s'') :
    Told o s (⟨path, file.output, UInt64.ofNat tree.routines.length,
      UInt64.ofNat (lineCount file.chunk.text), none⟩ :: entries) s''

/-- What is compiled has been read as a class. -/
theorem Attempt.parsed (h : Attempt o path s (.ok file) s') : ∃ source tree,
    Reads s path source ∧ ClassTree.ofSource source = .ok tree ∧ tree.chunk = .ok file.chunk := by
  have held : Holds s path file.chunk := by
    cases h with
    | printed _ held => exact held
    | written _ held => exact held
  obtain ⟨source, read, compiled⟩ := held
  obtain ⟨tree, parsed, generated⟩ := generated_bind.1 compiled
  exact ⟨source, tree, read, parsed, generated⟩

/-- The entry of a file that has been compiled. -/
def entryOf (file : CompiledFile) : FileEntry :=
  ⟨file.source, file.output, UInt64.ofNat file.chunk.routineCount, UInt64.ofNat file.chunk.count,
    none⟩

theorem files_addAll (report : Report) (files : List CompiledFile) :
    (files.foldl Report.addSuccess report).files = report.files ++ files.map entryOf := by
  induction files generalizing report with
  | nil => exact (List.append_nil _).symm
  | cons file files ih =>
    rw [List.foldl_cons, ih, Report.addSuccess, List.append_assoc]
    rfl

/-- The files that the entries tell of are the first of the sources, and all of them if none has
failed and the run has not been stopped. Without sources there are none. -/
def Attempted (o : Options) (s : σ) (result : Except BuildError (List CompiledFile))
    (entries : List FileEntry) : Prop :=
  match (outcome (discover o.paths) s).1 with
  | .error _ => entries = []
  | .ok sources => entries.map (·.path) <+: sources ∧
      ((∀ entry ∈ entries, entry.error = none) → BuildError.isFinal result = false →
        entries.map (·.path) = sources)

/-- The sources are found, and all of them are compiled and put out. -/
def AllCompiled (o : Options) (s : σ) (entries : List FileEntry) : Prop :=
  (outcome (discover o.paths) s).1 = .ok (entries.map (·.path)) ∧
    ∀ entry ∈ entries, entry.error = none

variable [LawfulHost σ]

/-- An entry tells the numbers of the class and of the text. -/
theorem Told.cons {entries : List FileEntry}
    (h : outcome (compileFile o file.source) s = (.ok file, s')) (rest : Told o s' entries s'') :
    Told o s (entryOf file :: entries) s'' := by
  have attempted := attempt_of_outcome h
  obtain ⟨source, tree, read, parsed, generated⟩ := attempted.parsed
  have legible := ClassTree.chunk_legible (ClassTree.ofSource_solid parsed) generated
  rw [entryOf, ClassTree.routineCount_chunk generated, ← Chunk.lineCount_text legible]
  exact .compiled h read parsed generated attempted.leaves rest

/-- The entries of files that are compiled one after the other come in front. -/
theorem Compiles.told {files : List CompiledFile} {entries : List FileEntry}
    (h : Compiles o s files s') (rest : Told o s' entries s'') :
    Told o s (files.map entryOf ++ entries) s'' := by
  induction h with
  | nil => exact rest
  | cons first _ ih => exact .cons first (ih rest)

/-- What a course comes to. -/
theorem Course.told {result : Report × Except BuildError (List CompiledFile)}
    {files pending : List CompiledFile} {tail : String}
    (h : Course o .empty s files pending tail result s') :
    Told o (outcome (discover o.paths) s).2 result.1.files s' ∧ result.1.Consistent ∧
      Attempted o s result.2 result.1.files ∧
      ((∃ compiled, result.2 = .ok compiled) ↔
        AllCompiled o s result.1.files ∧ BuildError.isFinal result.2 = false) := by
  cases h with
  | undiscovered found =>
    refine ⟨?_, Report.flawless_empty.consistent, ?_, ?_⟩
    · rw [found]
      exact .nothing s'
    · rw [Attempted, found]
      rfl
    · rw [AllCompiled, found]
      simp
  | finished found _ compiles =>
    have flawless := Report.flawless_empty.addAll files
    have paths : (files.foldl Report.addSuccess .empty).files.map (·.path) =
        files.map (·.source) := by
      rw [files_addAll, Report.empty, List.nil_append, List.map_map]
      rfl
    refine ⟨?_, flawless.consistent, ?_, ?_⟩
    · rw [files_addAll, found]
      have told := compiles.told (.nothing s')
      rwa [List.append_nil] at told
    · rw [Attempted, found, paths]
      exact ⟨List.prefix_rfl, fun _ _ => rfl⟩
    · rw [AllCompiled, found, paths]
      exact iff_of_true ⟨_, rfl⟩ ⟨⟨rfl, flawless.entries⟩, rfl⟩
  | @failed _ path rest e _ _ _ found _ compiles failed told _ =>
    have flawless := Report.flawless_empty.addAll files
    have entries : ((files.foldl Report.addSuccess .empty).addFailure path e).files =
        files.map entryOf ++ [⟨path, none, 0, 0, some e.message⟩] := by
      rw [Report.addFailure, files_addAll]
      rfl
    have tells : ¬ ∀ entry ∈ files.map entryOf ++ [⟨path, none, 0, 0, some e.message⟩],
        entry.error = none := fun all =>
      nomatch all _ (List.mem_append_right _ (List.mem_singleton_self _))
    refine ⟨?_, flawless.addFailure path e, ?_, ?_⟩
    · rw [entries, found]
      exact compiles.told (.failed failed told)
    · rw [Attempted, found, entries]
      refine ⟨⟨rest, ?_⟩, fun all => absurd all tells⟩
      simp [entryOf]
    · rw [AllCompiled, entries]
      exact iff_of_false nofun fun all => tells all.1.2
  | @stopped _ _ _ path rest _ _ _ _ _ found _ compiles stopped _ _ =>
    have flawless := Report.flawless_empty.addAll files
    have entries : (files.foldl Report.addSuccess .empty).files = files.map entryOf := by
      rw [files_addAll]
      rfl
    refine ⟨?_, flawless.consistent, ?_, ?_⟩
    · rw [entries, found]
      have told := compiles.told (.stopped stopped)
      rwa [List.append_nil] at told
    · rw [Attempted, found, entries]
      refine ⟨⟨path :: rest, ?_⟩, fun _ goes => nomatch goes⟩
      simp [entryOf]
    · exact iff_of_false nofun fun all => nomatch all.2

omit [LawfulHost σ] in
/-- A run is stopped only as a channel refuses a text. -/
theorem Course.refuses {result : Report × Except BuildError (List CompiledFile)} {report : Report}
    {files pending : List CompiledFile} {tail : String}
    (h : Course o report s files pending tail result s')
    (stopped : BuildError.isFinal result.2 = true) :
    ∃ channel cause, HasRefused channel cause s' := by
  cases h with
  | undiscovered _ _ told => exact absurd (told.symm.trans stopped) (by decide)
  | finished => cases stopped
  | failed _ _ _ _ told => exact absurd (told.symm.trans stopped) (by decide)
  | stopped _ _ _ _ refuses => exact ⟨_, _, refuses⟩

end Build

/-! ### The program -/

namespace Program

open Build

variable {σ : Type} [Host (StateM σ)] {L : Libraries} {o : Options} {report : Report}
  {result : Except BuildError (List CompiledFile)} {s s' : σ} {arguments : List String}

/-- The text of the report that is asked for is accepted where the run has ended. -/
def Accepted (L : Libraries) (o : Options) (report : Report) (s : σ) : Prop :=
  ∀ path text, o.report = some path → L.encode report = .ok text →
    (perform (Host.write path text) s).1 = .ok ()

variable [View σ] [LawfulHost σ]

end Program

end JackCompiler
