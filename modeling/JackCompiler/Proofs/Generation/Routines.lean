import JackCompiler.Proofs.Generation.Pieces
import Mathlib.Data.List.SplitBy
/-!
# The routines of a chunk

A chunk has a directive where a routine begins and nowhere else, so it can be cut into its routines
again. These are, one by one and in order, what is generated for the routines of the class.

        function A …   ◀ cut   function B …   ◀ cut   function C …
-/

namespace JackCompiler

/-- The routines of a chunk: each goes on up to the next directive. -/
def Chunk.routines (chunk : Chunk) : List (List Instruction) :=
  chunk.instructions.splitBy fun _ i => !i.opensRoutine

/-- No instruction of the code is a directive. -/
def NoDirective (code : List Instruction) : Prop := ∀ i ∈ code, i.opensRoutine = false

theorem noDirective_append {a b : List Instruction} :
    NoDirective (a ++ b) ↔ NoDirective a ∧ NoDirective b := List.forall_mem_append

theorem noDirective_singleton {i : Instruction} : NoDirective [i] ↔ i.opensRoutine = false :=
  List.forall_mem_singleton

/-- The code opens with a directive and has no other. -/
structure IsRoutine (code : List Instruction) : Prop where
  opens : ∃ name count rest, code = .function name count :: rest ∧ NoDirective rest

/-! ### Cutting a chunk -/

theorem IsRoutine.ne_nil {code : List Instruction} (h : IsRoutine code) : code ≠ [] := by
  obtain ⟨name, count, rest, rfl, -⟩ := h.opens
  exact List.cons_ne_nil _ _

/-- Nothing is cut inside a routine. -/
theorem IsRoutine.isChain {code : List Instruction} (h : IsRoutine code) :
    code.IsChain fun _ i => !i.opensRoutine := by
  obtain ⟨name, count, rest, rfl, none⟩ := h.opens
  rw [List.isChain_cons]
  refine ⟨fun i hi => by simp [none i (List.mem_of_mem_head? hi)], ?_⟩
  clear h
  induction rest with
  | nil => exact .nil
  | cons j rest ih =>
    obtain ⟨-, none⟩ := List.forall_mem_cons.1 none
    exact List.isChain_cons.2 ⟨fun i hi => by simp [none i (List.mem_of_mem_head? hi)], ih none⟩

/-- Routines that stand behind each other are cut where they begin. -/
theorem Chunk.routines_flatten {codes : List (List Instruction)}
    (h : ∀ code ∈ codes, IsRoutine code) : (Chunk.mk codes.flatten).routines = codes := by
  refine List.splitBy_flatten (fun empty => (h [] empty).ne_nil rfl)
    (fun code member => (h code member).isChain) ?_
  induction codes with
  | nil => exact .nil
  | cons code codes ih =>
    obtain ⟨first, rest⟩ := List.forall_mem_cons.1 h
    refine List.isChain_cons.2 ⟨fun next member => ?_, ih rest⟩
    obtain ⟨name, count, behind, rfl, -⟩ := (rest next (List.mem_of_mem_head? member)).opens
    exact ⟨first.ne_nil, List.cons_ne_nil _ _, rfl⟩

/-! ### Generating routines -/

/-- No piece of a body is a directive. -/
theorem assembles_noDirective (className : String) :
    Assembles className (fun _ => True) NoDirective where
  declared _ := trivial
  expressions {scope} _ := {
    nil := List.forall_mem_nil _
    append := fun ha hb => noDirective_append.2 ⟨ha, hb⟩
    constant := fun _ => noDirective_singleton.2 rfl
    operation := fun _ => noDirective_singleton.2 rfl
    call := fun _ _ => noDirective_singleton.2 rfl
    object := fun _ => noDirective_singleton.2 rfl
    variable_ := fun _ => noDirective_singleton.2 rfl
    element := by simp [NoDirective, selectElement, Instruction.opensRoutine] }
  assigned _ _ := noDirective_singleton.2 rfl
  assignedElement := by simp [NoDirective, selectElement, Instruction.opensRoutine]
  dropped := noDirective_singleton.2 rfl
  label _ := noDirective_singleton.2 rfl
  goto _ := noDirective_singleton.2 rfl
  ifGoto _ := noDirective_singleton.2 rfl
  giveBack := noDirective_singleton.2 rfl

theorem RoutineKind.prologue_noDirective (kind : RoutineKind) (n : UInt16) :
    NoDirective (kind.prologue n) := by
  cases kind <;> simp [prologue, NoDirective, pushConstant, Instruction.opensRoutine]

variable {className : String} {table : Table}

theorem Routine.code_isRoutine {r : Routine} {code : List Instruction}
    (h : r.code className table = .ok code) : IsRoutine code := by
  obtain ⟨⟨body, f⟩, hb, h⟩ := generated_bind.1 h
  cases h
  have body := (blockCode_assembles (assembles_noDirective className) hb trivial).2
  exact ⟨_, _, _, rfl, noDirective_append.2 ⟨r.kind.prologue_noDirective _, body⟩⟩

/-- What is matched with something in a list stands in the other. -/
theorem exists_mem_of_forall₂ {α β : Type} {R : α → β → Prop} {as : List α} {bs : List β}
    (h : List.Forall₂ R as bs) {b : β} (hb : b ∈ bs) : ∃ a ∈ as, R a b := by
  induction h with
  | nil => cases hb
  | cons first _ ih =>
    rcases List.mem_cons.1 hb with rfl | hb
    · exact ⟨_, .head _, first⟩
    · obtain ⟨a, ha, related⟩ := ih hb
      exact ⟨a, .tail _ ha, related⟩

/-- Routines are finished one by one: all of those asked for, in front of those from before. -/
theorem Generator.finishRoutines_eq_none {g g' : Generator} {rs : List Routine}
    (h : finishRoutines className table g rs = (g', none)) :
    ∃ codes, g'.finished = codes.reverse ++ g.finished ∧
      List.Forall₂ (fun r code => r.code className table = .ok code) rs codes := by
  induction rs generalizing g with
  | nil =>
    cases h
    exact ⟨[], rfl, .nil⟩
  | cons r rs ih =>
    rw [finishRoutines] at h
    split at h
    · next code hr =>
      obtain ⟨codes, finished, all⟩ := ih h
      exact ⟨code :: codes, by simp [finished], .cons hr all⟩
    · cases h

/-- Routines for which there is code are all finished. -/
theorem Generator.finishRoutines_of_codes {rs : List Routine} {codes : List (List Instruction)}
    (h : List.Forall₂ (fun r code => r.code className table = .ok code) rs codes) (g : Generator) :
    finishRoutines className table g rs = (⟨codes.reverse ++ g.finished⟩, none) := by
  induction h generalizing g with
  | nil => rfl
  | cons first _ ih =>
    rw [finishRoutines, first]
    simp [ih]

/-- A class with code for its routines has a chunk: their code, one behind the other. -/
theorem ClassTree.chunk_of_codes {c : ClassTree} {codes : List (List Instruction)}
    (h : List.Forall₂ (fun r code => r.code c.name c.table = .ok code) c.routines codes) :
    c.chunk = .ok ⟨codes.flatten⟩ := by
  rw [ClassTree.chunk, Generator.generate, Generator.finishRoutines_of_codes h, Generator.fresh]
  simp

/-- **The routines of a chunk are those generated for the routines of the class.** -/
theorem ClassTree.chunk_routines {c : ClassTree} {chunk : Chunk} (h : c.chunk = .ok chunk) :
    List.Forall₂ (fun r code => r.code c.name c.table = .ok code) c.routines chunk.routines := by
  rw [ClassTree.chunk, Generator.generate] at h
  split at h
  · next g finished =>
    cases h
    obtain ⟨codes, same, all⟩ := Generator.finishRoutines_eq_none finished
    have routines : ∀ code ∈ codes, IsRoutine code := fun code member => by
      obtain ⟨r, -, hr⟩ := exists_mem_of_forall₂ all member
      exact Routine.code_isRoutine hr
    rw [same, Generator.fresh, List.append_nil, List.reverse_reverse,
      Chunk.routines_flatten routines]
    exact all
  · cases h

end JackCompiler
