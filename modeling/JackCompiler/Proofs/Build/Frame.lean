import JackCompiler.Proofs.Build.Outputs
import JackCompiler.Proofs.Files.Worlds
/-!
# What a run touches

A run compiles a prefix of the sources in their order, and ends behind the first that fails. It
changes the files that the output paths of the compiled files lead to, and adds directories on the
way to the output directory. A file that fails gives no output. Where the instructions are printed
nothing changes, and the standard output has the instructions of the compiled files, one after the
other. Where a channel refuses a text the run stops at the file that it is at, which is not recorded
then.

        sources      A   B   C   D           C fails
        attempted    A   B   C
        touched      A.vm   B.vm
-/

namespace JackCompiler.Build

/-! ### Looking for sources -/

section

variable {σ α β : Type} [View σ]

/-- The action changes nothing that can be seen, and does not end the program. -/
def Quiet (x : ExceptT BuildError (StateM σ) α) : Prop :=
  ∀ s, Still s (outcome x s).2 ∧ BuildError.isFinal (outcome x s).1 = false

theorem Quiet.bind {x : ExceptT BuildError (StateM σ) α}
    {f : α → ExceptT BuildError (StateM σ) β} (hx : Quiet x) (hf : ∀ a, Quiet (f a)) :
    Quiet (x >>= f) := by
  intro s
  obtain ⟨still, goes⟩ := hx s
  have first : outcome x s = ((outcome x s).1, (outcome x s).2) := rfl
  cases result : (outcome x s).1 with
  | ok a =>
    rw [result] at first
    rw [outcome_bind_ok first]
    obtain ⟨still', goes'⟩ := hf a (outcome x s).2
    exact ⟨still.trans still', goes'⟩
  | error e =>
    rw [result] at first goes
    rw [outcome_bind_error first]
    exact ⟨still, goes⟩

theorem quiet_pure (a : α) : Quiet (pure a : ExceptT BuildError (StateM σ) α) :=
  fun s => ⟨.refl s, rfl⟩

theorem quiet_throw {e : BuildError} (told : e.isFatal = false) :
    Quiet (throw e : ExceptT BuildError (StateM σ) α) :=
  fun s => ⟨.refl s, told⟩

theorem quiet_demand {ε : Type} {fail : ε → BuildError} (told : ∀ e, (fail e).isFatal = false)
    (v : Except ε α) : Quiet (Build.demand fail v : ExceptT BuildError (StateM σ) α) := by
  cases v with
  | ok a => exact quiet_pure a
  | error e => exact quiet_throw (told e)

theorem quiet_mapM {f : α → ExceptT BuildError (StateM σ) β} (h : ∀ a, Quiet (f a))
    (l : List α) : Quiet (l.mapM f) := by
  induction l with
  | nil => exact quiet_pure _
  | cons a l ih =>
    rw [List.mapM_cons]
    exact (h a).bind fun b => ih.bind fun bs => quiet_pure _

variable [Host (StateM σ)] [LawfulHost σ]

theorem quiet_sourcesAt (path : String) :
    Quiet (sourcesAt path : ExceptT BuildError (StateM σ) (List String)) := by
  have kind : Quiet (Host.kindOf path : ExceptT BuildError (StateM σ) _) :=
    fun s => ⟨LawfulHost.kindOf s path, rfl⟩
  have names : Quiet (Host.filesIn path : ExceptT BuildError (StateM σ) _) :=
    fun s => ⟨LawfulHost.filesIn s path, rfl⟩
  refine kind.bind fun found => (quiet_demand (fun _ => rfl) found).bind fun found => ?_
  split
  · exact names.bind fun names => quiet_pure _
  · split
    · exact quiet_pure _
    · exact quiet_throw rfl

theorem quiet_discover (paths : List String) :
    Quiet (discover paths : ExceptT BuildError (StateM σ) (List String)) := by
  refine (quiet_mapM quiet_sourcesAt paths).bind fun sources => ?_
  split
  · exact quiet_throw rfl
  · exact quiet_pure _

end

/-! ### Runs -/

section

variable {σ : Type} [Host (StateM σ)]
  {o : Options} {report : Report} {s s' s'' : σ} {path tail : String}
  {files compiled pending : List CompiledFile}
  {result : Report × Except BuildError (List CompiledFile)}

/-- Files are compiled one after the other, from one state to another one. -/
inductive Compiles (o : Options) : σ → List CompiledFile → σ → Prop
  | nil (s : σ) : Compiles o s [] s
  | cons {s s' s'' : σ} {file : CompiledFile} {files : List CompiledFile}
    (first : outcome (compileFile o file.source) s = (.ok file, s'))
    (rest : Compiles o s' files s'') : Compiles o s (file :: files) s''

theorem perform_compileAll_cons (path : String) (rest : List String) (report : Report)
    (done : List CompiledFile) (s : σ) :
    perform (compileAll o (path :: rest) report done) s =
      match outcome (compileFile o path) s with
      | (.ok file, s') => perform (compileAll o rest (report.addSuccess file) (file :: done)) s'
      | (.error e, s') => ((if e.isFatal then report else report.addFailure path e, .error e), s')
      := by
  rw [compileAll, perform_bind, perform_run_eq]
  rcases outcome (compileFile o path) s with ⟨r, s'⟩
  cases r <;> rfl

theorem perform_run_of_found {sources : List String}
    (found : outcome (discover o.paths) s = (.ok sources, s')) :
    perform (run o report) s = perform (compileAll o sources report []) s' := by
  rw [run, perform_bind, perform_run_eq, found]

theorem perform_run_of_missing {e : BuildError}
    (missing : outcome (discover o.paths) s = (.error e, s')) :
    perform (run o report) s = ((report, .error e), s') := by
  rw [run, perform_bind, perform_run_eq, missing]
  rfl

variable [View σ]

/-- The course of a run: no sources are found, or all of them are compiled, or those in front of the
first that fails, or those in front of one at which the run is stopped as a channel refuses a text:
what may be left of that one is not recorded. A file that is refused as a text leaves no file
changed. -/
inductive Course (o : Options) (report : Report) (s : σ) : List CompiledFile →
    List CompiledFile → String → Report × Except BuildError (List CompiledFile) → σ → Prop
  | undiscovered {e : BuildError} {s' : σ}
    (found : outcome (discover o.paths) s = (.error e, s')) (still : Still s s')
    (told : e.isFatal = false) : Course o report s [] [] "" (report, .error e) s'
  | finished {compiled : List CompiledFile} {s₁ s' : σ}
    (found : outcome (discover o.paths) s = (.ok (compiled.map (·.source)), s₁))
    (still : Still s s₁) (compiles : Compiles o s₁ compiled s') :
    Course o report s compiled [] "" (compiled.foldl Report.addSuccess report, .ok compiled) s'
  | failed {compiled : List CompiledFile} {path : String} {rest : List String} {e : BuildError}
    {s₁ s₂ s' : σ}
    (found : outcome (discover o.paths) s = (.ok (compiled.map (·.source) ++ path :: rest), s₁))
    (still : Still s s₁) (compiles : Compiles o s₁ compiled s₂)
    (failed : outcome (compileFile o path) s₂ = (.error e, s')) (told : e.isFatal = false)
    (refused : ∀ cause, e = .compile path cause → SameFiles s₂ s') :
    Course o report s compiled [] ""
      ((compiled.foldl Report.addSuccess report).addFailure path e, .error e) s'
  | stopped {compiled pending : List CompiledFile} {tail path : String} {rest : List String}
    {channel : Channel} {cause : FileError} {s₁ s₂ s' : σ}
    (found : outcome (discover o.paths) s = (.ok (compiled.map (·.source) ++ path :: rest), s₁))
    (still : Still s s₁) (compiles : Compiles o s₁ compiled s₂)
    (stopped : outcome (compileFile o path) s₂ = (.error (.unprinted channel cause), s'))
    (refuses : HasRefused channel cause s') (unrecorded : Unrecorded o s₂ path pending tail) :
    Course o report s compiled pending tail
      (compiled.foldl Report.addSuccess report, .error (.unprinted channel cause)) s'

/-- Where a run succeeds, all sources are compiled. -/
theorem Course.of_ok (h : Course o report s files pending tail result s')
    (ran : result.2 = .ok compiled) : files = compiled ∧ pending = [] := by
  cases h with
  | undiscovered | failed | stopped => cases ran
  | finished _ _ compiles =>
    cases ran
    exact ⟨rfl, rfl⟩

variable [LawfulHost σ]

/-- Sources are compiled up to the first that is not, and what they leave adds up. -/
theorem perform_compileAll (sources : List String) (report : Report) (done : List CompiledFile)
    (s : σ) : ∃ compiled s', Compiles o s compiled s' ∧ Leaves o compiled "" s s' ∧
      (sources = compiled.map (·.source) ∧
          perform (compileAll o sources report done) s =
            ((compiled.foldl Report.addSuccess report, .ok (done.reverse ++ compiled)), s') ∨
        ∃ path rest e s'', sources = compiled.map (·.source) ++ path :: rest ∧
          outcome (compileFile o path) s' = (.error e, s'') ∧
          perform (compileAll o sources report done) s =
            ((if e.isFatal then compiled.foldl Report.addSuccess report
              else (compiled.foldl Report.addSuccess report).addFailure path e, .error e),
              s'')) := by
  induction sources generalizing report done s with
  | nil =>
    exact ⟨[], s, .nil s, .of_still (.refl s), .inl ⟨rfl, by rw [List.append_nil]; rfl⟩⟩
  | cons path rest ih =>
    rw [perform_compileAll_cons]
    cases result : outcome (compileFile o path) s with
    | mk r s₁ =>
      have attempted := attempt_of_outcome result
      cases r with
      | error e =>
        exact ⟨[], s, .nil s, .of_still (.refl s), .inr ⟨path, rest, e, s₁, rfl, result, rfl⟩⟩
      | ok file =>
        obtain rfl := attempted.source_eq rfl
        obtain ⟨compiled, s', compiles, leaves, ends⟩ :=
          ih (report.addSuccess file) (file :: done) s₁
        refine ⟨file :: compiled, s', .cons result compiles, attempted.leaves.trans leaves, ?_⟩
        obtain ⟨rfl, all⟩ | ⟨path, behind, e, s'', rfl, failed, stopped⟩ := ends
        · exact .inl ⟨rfl, by simpa using all⟩
        · exact .inr ⟨path, behind, e, s'', rfl, failed, stopped⟩

/-- Every run takes its course, and leaves what the files on it leave. -/
theorem run_course (o : Options) (report : Report) (s : σ) :
    ∃ compiled pending tail, Course o report s compiled pending tail
        (perform (run o report) s).1 (perform (run o report) s).2 ∧
      Leaves o (compiled ++ pending) tail s (perform (run o report) s).2 := by
  obtain ⟨still, goes⟩ := quiet_discover o.paths s
  have found : outcome (discover o.paths) s =
    ((outcome (discover o.paths) s).1, (outcome (discover o.paths) s).2) := rfl
  cases result : (outcome (discover o.paths) s).1 with
  | error e =>
    rw [result] at found goes
    rw [perform_run_of_missing found]
    exact ⟨[], [], "", .undiscovered found still goes, .of_still still⟩
  | ok sources =>
    rw [result] at found
    rw [perform_run_of_found found]
    obtain ⟨compiled, s', compiles, leaves, ends⟩ :=
      perform_compileAll (o := o) sources report [] (outcome (discover o.paths) s).2
    have left := (Leaves.of_still still).trans leaves
    obtain ⟨rfl, all⟩ | ⟨path, rest, e, s'', rfl, failed, stopped⟩ := ends
    · refine ⟨compiled, [], "", ?_, ?_⟩
      · rw [all]
        exact .finished found still compiles
      · rw [all, List.append_nil]
        exact left
    · have attempted := attempt_of_outcome failed
      rw [stopped]
      cases fatal : e.isFatal with
      | false =>
        refine ⟨compiled, [], "", ?_, left.trans (attempted.leaves_error fatal)⟩
        exact .failed found still compiles failed fatal fun cause refused =>
          attempted.sameFiles (congrArg Except.error refused)
      | true =>
        cases e with
        | unprinted channel cause =>
          obtain ⟨pending, tail, unrecorded, rest⟩ := attempted.leaves_unrecorded
          refine ⟨compiled, pending, tail, ?_, left.trans rest⟩
          exact .stopped found still compiles failed (attempted.refuses rfl) unrecorded
        | access | compile | report | notSource | noSources => cases fatal

/-- **Every run takes its course, and touches only what it has compiled and the way to the output
directory.** A source is touched only where an output path leads to it as well. -/
theorem run_leaves (o : Options) (report : Report) (s : σ) :
    let ran := perform (run o report) s
    ∃ compiled pending tail, Course o report s compiled pending tail ran.1 ran.2 ∧
      Leaves o (compiled ++ pending) tail s ran.2 ∧
      ∀ path n bytes, isSource path = true → reach s path = some n →
        content s n = some (.file bytes) → content ran.2 n ≠ content s n →
        ∃ f ∈ compiled ++ pending, ∃ output, f.output = some output ∧ isSource output = false ∧
          output ≠ path ∧ reach ran.2 output = some n := by
  intro ran
  obtain ⟨compiled, pending, tail, course, leaves⟩ := run_course o report s
  exact ⟨compiled, pending, tail, course, leaves, fun path n bytes => leaves.source⟩

end

/-- A working directory with one source. -/
def oneSource : World where
  workingDirectory := ["home"]
  entries := [(["home"], .directory), (["home", "A.jack"], .file "class A \x7b \x7d".toUTF8)]

/-- The source is compiled beside itself. -/
def besideSource : Options := { paths := ["A.jack"] }

/-- The source is compiled, and its output has been added. -/
theorem run_leaves_besideSource :
    (perform (run besideSource .empty) oneSource).1.2 =
      .ok [⟨"A.jack", some "A.vm", .empty⟩] ∧
    ∃ compiled pending tail,
      Course besideSource .empty oneSource compiled pending tail
        (perform (run besideSource .empty) oneSource).1
        (perform (run besideSource .empty) oneSource).2 ∧
      Leaves besideSource (compiled ++ pending) tail oneSource
        (perform (run besideSource .empty) oneSource).2 := by
  obtain ⟨compiled, pending, tail, course, leaves, -⟩ :=
    run_leaves besideSource .empty oneSource
  exact ⟨rfl, compiled, pending, tail, course, leaves⟩

/-! ### More is touched -/

/-- The source is compiled into a directory that cannot be made. -/
def intoNowhere : Options := { paths := ["A.jack"], outDir := some "a/b/." }

/-- Two sources, and the output of the first is a link to the second. -/
def linkedSources : World where
  workingDirectory := ["home"]
  entries := [(["home"], .directory), (["home", "A.jack"], .file "class A \x7b \x7d".toUTF8),
    (["home", "B.jack"], .file "class B \x7b \x7d".toUTF8)]
  leadsTo place := if place = ["home", "A.vm"] then ["home", "B.jack"] else place

/-- The source, and room for two messages. -/
def narrowSource : World := { oneSource with room := fun _ => some 50 }

/-- The source is compiled with messages: how long it has taken twice, and where it goes. -/
def toldSource : Options := { paths := ["A.jack"], verbose := true }

/-- **More than the files compiled and the output directory can be touched**: the way to a directory
that cannot be made, a source that an output path leads to, and the output of a file that is not
recorded, as the last message about it is refused. -/
theorem touched_besides :
    ((perform (run intoNowhere .empty) oneSource).1.1.succeeded = 0 ∧
      reach (perform (run intoNowhere .empty) oneSource).2 "a/b/." = none ∧
      reach oneSource "a" = none ∧
      reach (perform (run intoNowhere .empty) oneSource).2 "a" = some ["home", "a"]) ∧
    (textAt linkedSources "B.jack" = some "class B \x7b \x7d" ∧
      textAt (perform (run besideSource .empty) linkedSources).2 "B.jack" = some "") ∧
    ((perform (run toldSource .empty) narrowSource).1.1 = .empty ∧
      textAt narrowSource "A.vm" = none ∧
      textAt (perform (run toldSource .empty) narrowSource).2 "A.vm" = some "") :=
  ⟨⟨rfl, rfl, rfl, rfl⟩, by decide +kernel, by decide +kernel⟩

end JackCompiler.Build
