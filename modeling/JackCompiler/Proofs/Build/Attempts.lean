import JackCompiler.Proofs.Build.Messages
import JackCompiler.Proofs.Files.Making
/-!
# Attempts

What becomes of one file on a host with the laws: it is no source, it cannot be read, its text is
refused, or its chunk is printed or written, unless the directory cannot be made or the file cannot
be written. Wherever something is printed, the program may end instead.

        text read   ──▶   messages   ──▶   directories made   ──▶   chunk written   ──▶   message
-/

namespace JackCompiler.Build

/-! ### What comes of actions -/

section

variable {σ α β : Type} {s s' : σ}

/-- What comes of an action that may fail, and the state behind it. -/
def outcome (x : ExceptT BuildError (StateM σ) α) (s : σ) : Except BuildError α × σ :=
  perform x.run s

theorem perform_run_eq (x : ExceptT BuildError (StateM σ) α) (s : σ) :
    perform x.run s = outcome x s := rfl

theorem outcome_lift (x : StateM σ α) (s : σ) :
    outcome (ExceptT.lift x) s = (.ok (perform x s).1, (perform x s).2) := rfl

theorem outcome_demand {ε : Type} {fail : ε → BuildError} (v : Except ε α) (s : σ) :
    outcome (Build.demand fail v) s = (v.mapError fail, s) := by
  cases v <;> rfl

variable {x : ExceptT BuildError (StateM σ) α} {f : α → ExceptT BuildError (StateM σ) β}

theorem outcome_bind_ok {a : α} (h : outcome x s = (.ok a, s')) :
    outcome (x >>= f) s = outcome (f a) s' := by
  rw [outcome, perform] at h ⊢
  rw [ExceptT.run_bind, StateT.run_bind, h]
  rfl

theorem outcome_bind_error {e : BuildError} (h : outcome x s = (.error e, s')) :
    outcome (x >>= f) s = (.error e, s') := by
  rw [outcome, perform] at h ⊢
  rw [ExceptT.run_bind, StateT.run_bind, h]
  rfl

end

variable {σ α : Type} [Host (StateM σ)] [View σ] [LawfulHost σ]
  {o : Options} {s s' s'' : σ} {path : String} {channel : Channel} {text : String}

/-! ### Printing -/

/-- A text is printed, or a front of it and the program ends. -/
theorem outcome_say (s : σ) (channel : Channel) (text : String) : ∃ s',
    outcome (say channel text) s = (.ok (), s') ∧ Prints channel text s s' ∨
      ∃ front cause, outcome (say channel text) s = (.error (.unprinted channel cause), s') ∧
        front.toList <+: text.toList ∧ Prints channel front s s' ∧ HasRefused channel cause s' := by
  have tried : outcome (Host.print channel text) s =
    (.ok (perform (Host.print channel text) s).1, (perform (Host.print channel text) s).2) := rfl
  refine ⟨(perform (Host.print channel text) s).2, ?_⟩
  rw [say, outcome_bind_ok tried, outcome_demand]
  cases printed : (perform (Host.print channel text) s).1 with
  | ok => exact .inl ⟨rfl, LawfulHost.print_ok s channel text printed⟩
  | error cause =>
    obtain ⟨front, before, prints⟩ := LawfulHost.print_error s channel text cause printed
    exact .inr ⟨front, cause, rfl, before, prints, s, text, Prod.ext printed rfl⟩

/-- The result is there, or the program has ended as the channel of messages refuses one. -/
def Reached (o : Options) (x : ExceptT BuildError (StateM σ) α) (r : Except BuildError α)
    (s s' : σ) : Prop :=
  outcome x s = (r, s') ∨
    ∃ cause, outcome x s = (.error (.unprinted (diagnosticChannel o) cause), s') ∧
      HasRefused (diagnosticChannel o) cause s'

/-- Messages are a text on their channel. -/
theorem Talk.outcome {talk : ExceptT BuildError (StateM σ) Unit} (h : Talk o talk) (s : σ) :
    ∃ text s', Prints (diagnosticChannel o) text s s' ∧
      Reached o talk (.ok ()) s s' := by
  induction h generalizing s with
  | nothing => exact ⟨"", s, (Still.refl s).prints _, .inl rfl⟩
  | line text =>
    obtain ⟨s', ⟨said, prints⟩ | ⟨front, cause, said, -, prints, refuses⟩⟩ :=
      outcome_say s (diagnosticChannel o) text
    · exact ⟨text, s', prints, .inl said⟩
    · exact ⟨front, s', prints, .inr ⟨cause, said, refuses⟩⟩
  | @timed f _ ih =>
    have still := LawfulHost.now s
    have clock : Build.outcome (Host.now : ExceptT BuildError (StateM σ) Nat) s =
      (.ok (perform Host.now s).1, (perform Host.now s).2) := rfl
    obtain ⟨text, s', prints, reached⟩ := ih (perform Host.now s).1 (perform Host.now s).2
    have whole := (still.prints (diagnosticChannel o)).trans prints
    rw [String.empty_append] at whole
    refine ⟨text, s', whole, ?_⟩
    rwa [Reached, outcome_bind_ok clock]
  | both _ _ first second =>
    obtain ⟨text, s₁, prints, said | ⟨cause, ended, refuses⟩⟩ := first s
    · obtain ⟨text', s', prints', reached⟩ := second s₁
      refine ⟨text ++ text', s', prints.trans prints', ?_⟩
      rwa [Reached, outcome_bind_ok said]
    · exact ⟨text, s₁, prints, .inr ⟨cause, outcome_bind_error ended, refuses⟩⟩

theorem Says.outcome {x : ExceptT BuildError (StateM σ) α} {r : Except BuildError α}
    (h : Says o x r) (s : σ) :
    ∃ text s', Prints (diagnosticChannel o) text s s' ∧ Reached o x r s s' := by
  obtain ⟨talk, talks, rfl⟩ := h
  obtain ⟨text, s', prints, said | ⟨cause, ended, refuses⟩⟩ := talks.outcome s
  · refine ⟨text, s', prints, .inl ?_⟩
    rw [outcome_bind_ok said]
    rfl
  · exact ⟨text, s', prints, .inr ⟨cause, outcome_bind_error ended, refuses⟩⟩

/-! ### One file -/

theorem toUTF8_of_fromUTF8? {bytes : ByteArray} {text : String}
    (h : String.fromUTF8? bytes = some text) : bytes = text.toUTF8 := by
  rw [String.fromUTF8?] at h
  split at h
  · cases h
    rfl
  · cases h

/-- The text is read from the path: it stands in the file there, or a device gives it. -/
def Reads (s : σ) (path source : String) : Prop :=
  (perform (Host.readText path) s).1 = .ok source ∧ Carries s path source

/-- A text with this chunk is read from the path. -/
def Holds (s : σ) (path : String) (chunk : Chunk) : Prop :=
  ∃ source, Reads s path source ∧ compile source = .ok chunk

/-- The node is a new directory on the way to the output directory. -/
def Made (o : Options) (s s' : σ) (n : Node σ) : Prop :=
  content s n = none ∧ content s' n = some .directory ∧
    ∃ directory path, o.outDir = some directory ∧ OnWay directory path ∧ reach s' path = some n

/-- Nothing is added to the files but directories on the way to the output directory. -/
structure Readies (o : Options) (s s' : σ) : Prop where
  kept : ∀ p n, reach s p = some n → reach s' p = some n
  changed : ∀ n, content s' n = content s n ∨ Made o s s' n

/-- What becomes of one source file, and the state behind it. -/
inductive Attempt (o : Options) (path : String) (s : σ) :
    Except BuildError CompiledFile → σ → Prop
  | notSource (h : isSource path = false) : Attempt o path s (.error (.notSource path)) s
  | unread {e : FileError} {s' : σ} (h : isSource path = true) (still : Still s s') :
    Attempt o path s (.error (.access path e)) s'
  | refused {source text : String} {e : CompileError} {s' : σ} (h : isSource path = true)
    (read : Reads s path source) (refused : sourceOutcome o source = .error e)
    (said : Prints (diagnosticChannel o) text s s') :
    Attempt o path s (.error (.compile path e)) s'
  | silenced {text : String} {cause : FileError} {s' : σ} (h : isSource path = true)
    (said : Prints (diagnosticChannel o) text s s')
    (ended : HasRefused (diagnosticChannel o) cause s') :
    Attempt o path s (.error (.unprinted (diagnosticChannel o) cause)) s'
  | printed {text : String} {chunk : Chunk} {s₁ s' : σ} (h : isSource path = true)
    (held : Holds s path chunk) (out : o.toStdout = true)
    (said : Prints (diagnosticChannel o) text s s₁) (printed : Prints .output chunk.text s₁ s') :
    Attempt o path s (.ok ⟨path, none, chunk⟩) s'
  | cut {text front : String} {chunk : Chunk} {cause : FileError} {s₁ s' : σ}
    (h : isSource path = true) (held : Holds s path chunk) (out : o.toStdout = true)
    (said : Prints (diagnosticChannel o) text s s₁) (before : front.toList <+: chunk.text.toList)
    (printed : Prints .output front s₁ s') (ended : HasRefused .output cause s') :
    Attempt o path s (.error (.unprinted .output cause)) s'
  | unmade {directory : String} {e : FileError} {s' : σ} (h : isSource path = true)
    (silent : o.toStdout = false) (asked : o.outDir = some directory) (readies : Readies o s s') :
    Attempt o path s (.error (.access directory e)) s'
  | unwritten {e : FileError} {s' : σ} (h : isSource path = true) (silent : o.toStdout = false)
    (readies : Readies o s s') :
    Attempt o path s (.error (.access (outputPath o.outDir path) e)) s'
  | written {text : String} {chunk : Chunk} {s₁ s₂ s' : σ} (h : isSource path = true)
    (held : Holds s path chunk) (silent : o.toStdout = false) (readies : Readies o s s₁)
    (writes : Writes (outputPath o.outDir path) chunk.text s₁ s₂)
    (said : Prints (diagnosticChannel o) text s₂ s') :
    Attempt o path s (.ok ⟨path, some (outputPath o.outDir path), chunk⟩) s'
  | unannounced {text : String} {chunk : Chunk} {cause : FileError} {s₁ s₂ s' : σ}
    (h : isSource path = true) (held : Holds s path chunk) (silent : o.toStdout = false)
    (readies : Readies o s s₁)
    (writes : Writes (outputPath o.outDir path) chunk.text s₁ s₂)
    (said : Prints (diagnosticChannel o) text s₂ s')
    (ended : HasRefused (diagnosticChannel o) cause s') :
    Attempt o path s (.error (.unprinted (diagnosticChannel o) cause)) s'

section

omit [Host (StateM σ)] [LawfulHost σ]

theorem Readies.of_still (h : Still s s') : Readies o s s' :=
  ⟨fun _ _ reached => h.reach ▸ reached, fun n => .inl (congrFun h.content n)⟩

theorem Readies.of_prints (h : Prints channel text s s') : Readies o s s' :=
  ⟨fun _ _ reached => h.reach ▸ reached, fun n => .inl (congrFun h.content n)⟩

theorem Readies.of_paves {directory : String} (asked : o.outDir = some directory)
    (h : Paves directory s s') : Readies o s s' := by
  refine ⟨h.kept, fun n => ?_⟩
  obtain same | ⟨free, made, path, on, reached⟩ := h.changed n
  · exact .inl same
  · exact .inr ⟨free, made, directory, path, asked, on, reached⟩

theorem Readies.trans (h : Readies o s s') (h' : Readies o s' s'') : Readies o s s'' := by
  refine ⟨fun p n reached => h'.kept p n (h.kept p n reached), fun n => ?_⟩
  obtain same' | ⟨free', made', way'⟩ := h'.changed n
  · obtain same | ⟨free, made, directory, path, asked, on, reached⟩ := h.changed n
    · exact .inl (same'.trans same)
    · exact .inr ⟨free, same'.trans made, directory, path, asked, on, h'.kept path n reached⟩
  · obtain same | ⟨-, made, -⟩ := h.changed n
    · exact .inr ⟨same ▸ free', made', way'⟩
    · exact absurd (made.symm.trans free') nofun

end

/-- The text that is read is what the path carries. -/
theorem readText_still (s : σ) (path : String) :
    Still s (perform (Host.readText path) s).2 ∧
      ∀ source, (perform (Host.readText path) s).1 = .ok source → Reads s path source := by
  have still := LawfulHost.read s path
  suffices carries : Still s (perform (Host.readText path) s).2 ∧
      ∀ source, (perform (Host.readText path) s).1 = .ok source → Carries s path source from
    ⟨carries.1, fun source same => ⟨same, carries.2 source same⟩⟩
  rw [Host.readText, perform_bind]
  cases read : (perform (Host.read path) s).1 with
  | error e => exact ⟨still, nofun⟩
  | ok bytes =>
    obtain ⟨n, reached, here⟩ := LawfulHost.read_ok s path bytes read
    simp only
    split
    · next text decoded =>
      refine ⟨still, fun source same => ?_⟩
      cases same
      exact ⟨n, reached, toUTF8_of_fromUTF8? decoded ▸ here⟩
    · exact ⟨still, nofun⟩

/-- Makes the output directory, if there is one. -/
def makeFor (outDir : Option String) : ExceptT BuildError (StateM σ) Unit :=
  match outDir with
  | none => pure ()
  | some directory => do demand (.access directory) (← Host.makeDirectories directory)

/-- Writes the instructions of a file. -/
def writeTo (o : Options) (output : String) (chunk : Chunk) :
    ExceptT BuildError (StateM σ) (Option String) := do
  demand (.access output) (← Host.write output chunk.text)
  if o.verbose then diagnose o s!"Wrote to {output}"
  return some output

omit [View σ] [LawfulHost σ] in
theorem emit_of_silent (silent : ¬ o.toStdout = true) (path : String) (chunk : Chunk) :
    (emit o path chunk : ExceptT BuildError (StateM σ) (Option String)) =
      makeFor o.outDir >>= fun _ => writeTo o (outputPath o.outDir path) chunk := by
  rw [emit, if_neg silent]
  cases o.outDir with
  | none =>
    rw [makeFor, pure_bind]
    rfl
  | some directory =>
    rw [makeFor, bind_assoc]
    rfl

theorem outcome_makeFor (s : σ) (o : Options) : ∃ r s',
    outcome (makeFor o.outDir) s = (r, s') ∧ Readies o s s' ∧ ∀ e, r = .error e →
      ∃ directory cause, o.outDir = some directory ∧ e = .access directory cause := by
  cases asked : o.outDir with
  | none => exact ⟨.ok (), s, rfl, .of_still (.refl s), nofun⟩
  | some directory =>
    have paves := Host.paves_makeDirectories s directory
    have made : outcome (Host.makeDirectories directory) s =
        (.ok (perform (Host.makeDirectories directory) s).1,
          (perform (Host.makeDirectories directory) s).2) := by
      rw [Host.makeDirectories_lift, outcome_lift]
    refine ⟨_, _, by rw [makeFor, outcome_bind_ok made, outcome_demand], .of_paves asked paves,
      fun e failed => ?_⟩
    cases result : (perform (Host.makeDirectories directory) s).1 with
    | ok => simp [result, Except.mapError] at failed
    | error cause =>
      rw [result] at failed
      exact ⟨directory, cause, rfl, (Except.error.inj failed).symm⟩

theorem outcome_writeTo (s : σ) (o : Options) (output : String) (chunk : Chunk) :
    (∃ e s', outcome (writeTo o output chunk) s = (.error (.access output e), s') ∧ Still s s') ∨
      ∃ text s₁ s', Writes output chunk.text s s₁ ∧
        Prints (diagnosticChannel o) text s₁ s' ∧
        Reached o (writeTo o output chunk) (.ok (some output)) s s' := by
  have tried : outcome (Host.write output chunk.text) s =
      (.ok (perform (Host.write output chunk.text) s).1,
        (perform (Host.write output chunk.text) s).2) := rfl
  have told (s₁ : σ) : ∃ text s', Prints (diagnosticChannel o) text s₁ s' ∧
      Reached o (do
        if o.verbose then diagnose o s!"Wrote to {output}"
        return some output) (.ok (some output)) s₁ s' := by
    split
    · exact ((says_diagnose _).bind (.of_eq rfl)).outcome s₁
    · exact (Says.of_eq rfl).outcome s₁
  cases written : (perform (Host.write output chunk.text) s).1 with
  | error e =>
    refine .inl ⟨e, _, ?_, LawfulHost.write_error s output chunk.text e written⟩
    rw [writeTo, outcome_bind_ok tried, written]
    exact outcome_bind_error (outcome_demand _ _)
  | ok =>
    have writes := LawfulHost.write_ok s output chunk.text written
    obtain ⟨text, s', prints, reached⟩ := told (perform (Host.write output chunk.text) s).2
    refine .inr ⟨text, _, s', writes, prints, ?_⟩
    rw [Reached, writeTo, outcome_bind_ok tried, written,
      outcome_bind_ok (outcome_demand (.ok ()) _)]
    exact reached

/-- What becomes of a chunk. -/
theorem emit_attempt {chunk : Chunk} {s₁ : σ} (source : isSource path = true)
    (held : Holds s path chunk) (said : Prints (diagnosticChannel o) text s s₁) :
    Attempt o path s
      (outcome (emit o path chunk >>= fun output => pure (CompiledFile.mk path output chunk)) s₁).1
      (outcome (emit o path chunk >>= fun output => pure (CompiledFile.mk path output chunk)) s₁).2
      := by
  by_cases out : o.toStdout = true
  · rw [emit, if_pos out, bind_assoc]
    obtain ⟨s', ⟨said', prints⟩ | ⟨front, cause, ended, before, prints, refuses⟩⟩ :=
      outcome_say s₁ .output chunk.text
    · rw [outcome_bind_ok said']
      exact .printed source held out said prints
    · rw [outcome_bind_error ended]
      exact .cut source held out said before prints refuses
  · have silent := Bool.eq_false_iff.2 out
    rw [emit_of_silent out, bind_assoc]
    obtain ⟨made, s₂, same, readies, failed⟩ := outcome_makeFor s₁ o
    have whole := (Readies.of_prints said).trans readies
    cases made with
    | error e =>
      obtain ⟨directory, cause, asked, rfl⟩ := failed e rfl
      rw [outcome_bind_error same]
      exact .unmade source silent asked whole
    | ok =>
      rw [outcome_bind_ok same]
      obtain ⟨e, s', failed, still⟩ |
          ⟨text', s₃, s', writes, said', done | ⟨cause, ended, refuses⟩⟩ :=
        outcome_writeTo s₂ o (outputPath o.outDir path) chunk
      · rw [outcome_bind_error failed]
        exact .unwritten source silent (whole.trans (.of_still still))
      · rw [outcome_bind_ok done]
        exact .written source held silent whole writes said'
      · rw [outcome_bind_error ended]
        exact .unannounced source held silent whole writes said' refuses

/-- **Compiling one file is one of these attempts.** -/
theorem compileFile_attempt (s : σ) (o : Options) (path : String) :
    Attempt o path s (outcome (compileFile o path) s).1 (outcome (compileFile o path) s).2 := by
  rw [compileFile]
  split
  · next named =>
    obtain ⟨still, stands⟩ := readText_still s path
    have first : outcome (Host.readText path) s =
        (.ok (perform (Host.readText path) s).1, (perform (Host.readText path) s).2) := by
      rw [Host.readText_lift, outcome_lift]
    rw [outcome_bind_ok first]
    cases read : (perform (Host.readText path) s).1 with
    | error e =>
      rw [outcome_bind_error (outcome_demand _ _)]
      exact .unread named still
    | ok source =>
      rw [outcome_bind_ok (outcome_demand (.ok source) _)]
      have here := stands source read
      obtain ⟨text, s₁, said, reached⟩ :=
        (says_compileSource (o := o) path source).outcome (perform (Host.readText path) s).2
      have said' := (still.prints (diagnosticChannel o)).trans said
      obtain done | ⟨cause, ended, refuses⟩ := reached
      · cases result : sourceOutcome o source with
        | error e =>
          rw [result] at done
          rw [outcome_bind_error done]
          exact .refused named here result said'
        | ok chunk =>
          rw [result] at done
          rw [outcome_bind_ok done]
          exact emit_attempt named ⟨source, here, sourceOutcome_eq_ok.1 result⟩ said'
      · rw [outcome_bind_error ended]
        exact .silenced named said' refuses
  · next other => exact .notSource (Bool.eq_false_iff.2 other)

theorem attempt_of_outcome {r : Except BuildError CompiledFile}
    (h : outcome (compileFile o path) s = (r, s')) : Attempt o path s r s' := by
  have attempted := compileFile_attempt s o path
  rwa [h] at attempted

section

variable {r : Except BuildError CompiledFile}

omit [LawfulHost σ]

/-- A text that is refused leaves nothing behind but messages. -/
theorem Attempt.sameFiles {e : CompileError} (h : Attempt o path s r s')
    (refused : r = .error (.compile path e)) : SameFiles s s' := by
  cases h with
  | refused _ _ _ said => exact said.toSameFiles
  | notSource | unread | silenced | printed | cut | unmade | unwritten | written | unannounced =>
    cases refused

/-- What is compiled is the file that was asked for. -/
theorem Attempt.source_eq {file : CompiledFile} (h : Attempt o path s r s')
    (done : r = .ok file) : file.source = path := by
  cases h <;> cases done <;> rfl

/-- The program ends only as a channel refuses a text. -/
theorem Attempt.refuses {cause : FileError} (h : Attempt o path s r s')
    (ended : r = .error (.unprinted channel cause)) : HasRefused channel cause s' := by
  cases h with
  | silenced _ _ refuses | cut _ _ _ _ _ _ refuses | unannounced _ _ _ _ _ _ refuses =>
    cases ended
    exact refuses
  | notSource | unread | refused | printed | unmade | unwritten | written => cases ended

end

end JackCompiler.Build
