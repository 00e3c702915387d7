import JackCompiler.Proofs.Build.Attempts
import JackCompiler.Proofs.Files.Segments
/-!
# What files leave behind

The files that are compiled leave their texts in the files that their output paths lead to. Where
several output paths lead to one file, the last of them counts. New directories stand on the way to
the output directory, devices stay as they are, and nothing else changes. Where instructions are
printed, no file changes at all. What some files leave and what more of them leave after that comes
to what all of them leave.

        A.jack   ──▶   A.vm   ──▶  ○
        B.jack   ──▶   B.vm   ──▶  ○         two files
        C.jack   ──▶   C.vm   ──▶  ○  ◀──  D.vm
-/

namespace JackCompiler.Build

variable {σ : Type} [View σ] {o : Options} {s s' s'' : σ} {path tail : String}
  {files files' : List CompiledFile} {f last : CompiledFile} {n : Node σ}

/-- The output path of the file leads to the node. -/
def LeadsTo (s : σ) (f : CompiledFile) (n : Node σ) : Prop :=
  ∃ output, f.output = some output ∧ reach s output = some n

/-- Of the files whose output path leads to the node, this is the last. -/
def IsLast (s : σ) (files : List CompiledFile) (n : Node σ) (last : CompiledFile) : Prop :=
  ∃ earlier later, files = earlier ++ last :: later ∧ LeadsTo s last n ∧
    ∀ f ∈ later, ¬ LeadsTo s f n

/-- The texts of the files, one after the other. -/
def texts (files : List CompiledFile) : String := String.join (files.map (·.chunk.text))

/-- What the files leave behind: their texts at the ends of their output paths, apart from devices,
and new directories on the way to the output directory. Where instructions are printed, no file
changes, and the texts are printed, and one more where it has been begun. -/
structure Leaves (o : Options) (files : List CompiledFile) (tail : String) (s s' : σ) : Prop where
  outputs : ∀ f ∈ files,
    f.output = if o.toStdout then none else some (outputPath o.outDir f.source)
  reached : ∀ f ∈ files, ∀ output, f.output = some output → ∃ n, reach s' output = some n
  contents : ∀ n,
    (∃ last, IsLast s' files n last ∧ content s' n = some (.file last.chunk.text.toUTF8)) ∨
      (∀ f ∈ files, LeadsTo s' f n → content s n = some .device) ∧
        (content s' n = content s n ∨ Made o s s' n)
  kept : ∀ p n, reach s p = some n → reach s' p = some n
  prints : o.toStdout = true → SameFiles s s' ∧
    printed s' .output = printed s .output ++ texts files ++ tail

/-! ### Last files -/

theorem LeadsTo.kept (h : LeadsTo s f n) (kept : ∀ p n, reach s p = some n → reach s' p = some n) :
    LeadsTo s' f n := by
  obtain ⟨output, named, reached⟩ := h
  exact ⟨output, named, kept output n reached⟩

/-- Where output paths lead somewhere, they lead there still, and nowhere else. -/
theorem Leaves.leadsTo_iff (h : Leaves o files tail s s')
    (kept : ∀ p n, reach s' p = some n → reach s'' p = some n) (among : f ∈ files) :
    LeadsTo s'' f n ↔ LeadsTo s' f n := by
  refine ⟨fun leads => ?_, fun leads => leads.kept kept⟩
  obtain ⟨output, named, reached⟩ := leads
  obtain ⟨n', reached'⟩ := h.reached f among output named
  have same : n' = n := Option.some.inj ((kept output n' reached').symm.trans reached)
  exact ⟨output, named, same ▸ reached'⟩

theorem IsLast.append_left (h : IsLast s files' n last) : IsLast s (files ++ files') n last := by
  obtain ⟨earlier, later, rfl, leads, none⟩ := h
  exact ⟨files ++ earlier, later, (List.append_assoc ..).symm, leads, none⟩

theorem IsLast.append_right (h : IsLast s files n last) (none : ∀ f ∈ files', ¬ LeadsTo s f n) :
    IsLast s (files ++ files') n last := by
  obtain ⟨earlier, later, rfl, leads, none'⟩ := h
  refine ⟨earlier, later ++ files', by simp, leads, fun f among => ?_⟩
  obtain first | second := List.mem_append.1 among
  · exact none' f first
  · exact none f second

theorem isLast_singleton (h : LeadsTo s f n) : IsLast s [f] n f :=
  ⟨[], [], rfl, h, List.forall_mem_nil _⟩

/-! ### One after the other -/

theorem texts_append (files files' : List CompiledFile) :
    texts (files ++ files') = texts files ++ texts files' := by
  rw [texts, List.map_append, String.join_append]
  rfl

theorem Leaves.of_readies (h : Readies o s s') (silent : o.toStdout = false) :
    Leaves o [] "" s s' where
  outputs := List.forall_mem_nil _
  reached := List.forall_mem_nil _
  contents n := .inr ⟨List.forall_mem_nil _, h.changed n⟩
  kept := h.kept
  prints out := absurd (out.symm.trans silent) (by decide)

/-- What is left where nothing is added to the files, and a text is printed. -/
theorem Leaves.of_sameFiles (h : SameFiles s s')
    (printed : o.toStdout = true → printed s' .output = printed s .output ++ tail) :
    Leaves o [] tail s s' where
  outputs := List.forall_mem_nil _
  reached := List.forall_mem_nil _
  contents n := .inr ⟨List.forall_mem_nil _, .inl (congrFun h.content n)⟩
  kept p n reached := h.reach ▸ reached
  prints out := ⟨h, by rw [printed out]; simp [texts]⟩

theorem Leaves.of_still (h : Still s s') : Leaves o [] "" s s' :=
  .of_sameFiles h.toSameFiles fun _ => by rw [h.printed, String.append_empty]

/-- Messages do not show among the instructions. -/
theorem Leaves.of_message {text : String} (h : Prints (diagnosticChannel o) text s s') :
    Leaves o [] "" s s' := by
  refine .of_sameFiles h.toSameFiles fun out => ?_
  have apart : Channel.output ≠ diagnosticChannel o := by simp [diagnosticChannel, out]
  rw [h.elsewhere _ apart, String.append_empty]

/-- One file that is printed. -/
theorem Leaves.of_printed (h : Prints .output f.chunk.text s s') (out : o.toStdout = true)
    (none : f.output = none) : Leaves o [f] "" s s' where
  outputs := List.forall_mem_singleton.2 (by rw [out, none]; rfl)
  reached := List.forall_mem_singleton.2 fun output named => by simp [none] at named
  contents n := by
    refine .inr ⟨List.forall_mem_singleton.2 ?_, .inl (congrFun h.content n)⟩
    rintro ⟨output, named, -⟩
    simp [none] at named
  kept p n reached := h.reach ▸ reached
  prints _ := ⟨h.toSameFiles, by rw [h.here]; simp [texts]⟩

/-- One file that is written. -/
theorem Leaves.of_writes (h : Writes (outputPath o.outDir f.source) f.chunk.text s s')
    (silent : o.toStdout = false) (named : f.output = some (outputPath o.outDir f.source)) :
    Leaves o [f] "" s s' := by
  have leads (k : Node σ) : LeadsTo s' f k ↔ reach s' (outputPath o.outDir f.source) = some k := by
    simp [LeadsTo, named]
  obtain ⟨n, h⟩ := h
  have reached : reach s' (outputPath o.outDir f.source) = some n :=
    h.elim (·.reached) fun takes => takes.reach ▸ takes.reached
  refine ⟨List.forall_mem_singleton.2 (by rw [silent, named]; rfl),
    List.forall_mem_singleton.2 fun output named' => ⟨n, ?_⟩, fun k => ?_, fun p k led => ?_,
    fun out => absurd (out.symm.trans silent) (by decide)⟩
  · rw [named] at named'
    exact Option.some.inj named' ▸ reached
  · rw [List.forall_mem_singleton, leads, reached]
    obtain puts | takes := h
    · by_cases same : k = n
      · subst same
        exact .inl ⟨f, isLast_singleton ((leads k).2 reached), puts.placed⟩
      · exact .inr ⟨fun led => absurd (Option.some.inj led).symm same, .inl (puts.others k same)⟩
    · exact .inr ⟨fun led => Option.some.inj led ▸ takes.device, .inl (congrFun takes.content k)⟩
  · obtain puts | takes := h
    · exact puts.kept p k led
    · exact takes.reach ▸ led

/-- **What some files leave and more after them comes to what all of them leave.** -/
theorem Leaves.trans (h : Leaves o files "" s s') (h' : Leaves o files' tail s' s'') :
    Leaves o (files ++ files') tail s s'' where
  outputs f among := (List.mem_append.1 among).elim (h.outputs f) (h'.outputs f)
  reached f among output named := by
    obtain first | second := List.mem_append.1 among
    · obtain ⟨n, reached⟩ := h.reached f first output named
      exact ⟨n, h'.kept output n reached⟩
    · exact h'.reached f second output named
  contents n := by
    have same (f : CompiledFile) (among : f ∈ files) : LeadsTo s'' f n ↔ LeadsTo s' f n :=
      h.leadsTo_iff h'.kept among
    obtain ⟨last, isLast, here⟩ | ⟨device', changed'⟩ := h'.contents n
    · exact .inl ⟨last, isLast.append_left, here⟩
    obtain ⟨last, ⟨earlier, later, rfl, leads, none⟩, here⟩ | ⟨device, changed⟩ := h.contents n
    · -- the last of the first files is the last of all, and nothing is made where it stands
      have none' : ∀ f ∈ files', ¬ LeadsTo s'' f n := fun f among leads' =>
        absurd (here.symm.trans (device' f among leads')) nofun
      have isLast : IsLast s'' (earlier ++ last :: later) n last :=
        ⟨earlier, later, rfl, leads.kept h'.kept, fun f among leads' => none f among
          ((same f (List.mem_append_right _ (List.mem_cons_of_mem _ among))).1 leads')⟩
      obtain stays | ⟨free, -⟩ := changed'
      · exact .inl ⟨last, isLast.append_right none', stays.trans here⟩
      · exact absurd (here.symm.trans free) nofun
    · refine .inr ⟨fun f among leads' => ?_, ?_⟩
      · obtain first | second := List.mem_append.1 among
        · exact device f first ((same f first).1 leads')
        · have here := device' f second leads'
          obtain stays | ⟨-, made, -⟩ := changed
          · exact stays ▸ here
          · exact absurd (here.symm.trans made) nofun
      · obtain stays' | ⟨free', made', way'⟩ := changed'
        · obtain stays | ⟨free, made, directory, path, asked, on, reached⟩ := changed
          · exact .inl (stays'.trans stays)
          · exact .inr ⟨free, stays'.trans made, directory, path, asked, on,
              h'.kept path n reached⟩
        · obtain stays | ⟨-, made, -⟩ := changed
          · exact .inr ⟨stays ▸ free', made', way'⟩
          · exact absurd (made.symm.trans free') nofun
  kept p n reached := h'.kept p n (h.kept p n reached)
  prints out := by
    obtain ⟨same, printed⟩ := h.prints out
    obtain ⟨same', printed'⟩ := h'.prints out
    refine ⟨same.trans same', ?_⟩
    rw [printed', printed, texts_append, String.append_empty]
    simp only [String.append_assoc]

/-- A text that is written behind directories that are made, and the message about it. -/
theorem Leaves.of_written {text : String} {chunk : Chunk} {s₁ s₂ : σ} (readies : Readies o s s₁)
    (silent : o.toStdout = false) (writes : Writes (outputPath o.outDir path) chunk.text s₁ s₂)
    (said : Prints (diagnosticChannel o) text s₂ s') :
    Leaves o [⟨path, some (outputPath o.outDir path), chunk⟩] "" s s' := by
  have written : Leaves o [⟨path, some (outputPath o.outDir path), chunk⟩] "" s₁ s₂ :=
    .of_writes writes silent rfl
  exact ((Leaves.of_readies readies silent).trans written).trans (.of_message said)

/-- No source is touched, unless a file has two names: an output path that leads to it is no
source. -/
theorem Leaves.source (h : Leaves o files tail s s') {bytes : ByteArray}
    (source : isSource path = true) (reached : reach s path = some n)
    (held : content s n = some (.file bytes)) (changed : content s' n ≠ content s n) :
    ∃ f ∈ files, ∃ output, f.output = some output ∧ isSource output = false ∧ output ≠ path ∧
      reach s' output = some n := by
  obtain ⟨last, ⟨earlier, later, rfl, ⟨output, named, leads⟩, -⟩, -⟩ | ⟨-, same | ⟨free, -⟩⟩ :=
    h.contents n
  · have among : last ∈ earlier ++ last :: later :=
      List.mem_append_right _ List.mem_cons_self
    have other : isSource output = false := by
      have outputs := h.outputs last among
      rw [named] at outputs
      split at outputs
      · cases outputs
      · cases outputs
        exact PathName.isSource_outputPath _ _
    refine ⟨last, among, output, named, other, ?_, leads⟩
    rintro rfl
    exact absurd (source.symm.trans other) (by decide)
  · exact absurd same changed
  · exact absurd (free.symm.trans held) nofun

/-! ### What one file leaves -/

variable [Host (StateM σ)]

/-- What may be left of a file where the program ends: nothing, a part of its instructions, or a
text that is written and not told of. -/
inductive Unrecorded (o : Options) (s : σ) (path : String) : List CompiledFile → String → Prop
  | nothing : Unrecorded o s path [] ""
  | begun {chunk : Chunk} {front : String} (held : Holds s path chunk) (out : o.toStdout = true)
    (before : front.toList <+: chunk.text.toList) : Unrecorded o s path [] front
  | written {chunk : Chunk} (held : Holds s path chunk) (silent : o.toStdout = false) :
    Unrecorded o s path [⟨path, some (outputPath o.outDir path), chunk⟩] ""

/-- A file that is compiled. -/
theorem Attempt.leaves (h : Attempt o path s (.ok f) s') : Leaves o [f] "" s s' := by
  cases h with
  | printed _ _ out said printed =>
    exact (Leaves.of_message said).trans (.of_printed printed out rfl)
  | written _ _ silent readies writes said => exact .of_written readies silent writes said

/-- A file that fails leaves directories at most. -/
theorem Attempt.leaves_error {e : BuildError} (h : Attempt o path s (.error e) s')
    (told : e.isFatal = false) : Leaves o [] "" s s' := by
  cases h with
  | notSource => exact .of_still (.refl s)
  | unread _ still => exact .of_still still
  | refused _ _ _ said => exact .of_message said
  | unmade _ silent _ readies => exact .of_readies readies silent
  | unwritten _ silent readies => exact .of_readies readies silent
  | silenced | cut | unannounced => cases told

/-- A file at which the program ends. -/
theorem Attempt.leaves_unrecorded {channel : Channel} {cause : FileError}
    (h : Attempt o path s (.error (.unprinted channel cause)) s') :
    ∃ pending tail, Unrecorded o s path pending tail ∧ Leaves o pending tail s s' := by
  cases h with
  | silenced _ said => exact ⟨[], "", .nothing, .of_message said⟩
  | cut _ held out said before printed =>
    have rest := Leaves.of_sameFiles (o := o) printed.toSameFiles fun _ => printed.here
    exact ⟨[], _, .begun held out before, (Leaves.of_message said).trans rest⟩
  | unannounced _ held silent readies writes said =>
    exact ⟨_, "", .written held silent, .of_written readies silent writes said⟩

end JackCompiler.Build
