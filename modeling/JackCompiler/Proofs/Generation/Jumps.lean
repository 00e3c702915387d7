import JackCompiler.Proofs.Execution.RoutineCode
import JackCompiler.Proofs.Generation.Labels
import JackCompiler.Proofs.Generation.Routines
/-!
# Jumps

A statement jumps to labels of its own and to no others, whatever stands around it: the tests of a
condition go to the alternative or behind the statement, and a loop goes back to its start. So a
body is closed under its jumps, piece by piece. With labels that are declared only once, every jump
of a routine has exactly one place to go to, and it lies in the same routine.

        label start ◀──────────────┐
        condition                  │
        if-goto end ───────┐       │
        body (closed)      │       │
        goto start ────────┼───────┘
        label end   ◀──────┘
-/

namespace JackCompiler

/-- The labels that a piece of code jumps to, in order. -/
def jumpTargets (code : List Instruction) : List String :=
  code.filterMap fun
    | .goto name | .ifGoto name => some name
    | _ => none

@[simp] theorem jumpTargets_append (a b : List Instruction) :
    jumpTargets (a ++ b) = jumpTargets a ++ jumpTargets b := List.filterMap_append

@[simp] theorem jumpTargets_nil : jumpTargets [] = [] := rfl

@[simp] theorem jumpTargets_label (name : String) (code : List Instruction) :
    jumpTargets (.label name :: code) = jumpTargets code := rfl

@[simp] theorem jumpTargets_goto (name : String) (code : List Instruction) :
    jumpTargets (.goto name :: code) = name :: jumpTargets code := rfl

@[simp] theorem jumpTargets_unlessGoto (label : String) :
    jumpTargets (unlessGoto label) = [label] := rfl

theorem jumpTargets_plain {code : List Instruction} (h : PlainCode code) :
    jumpTargets code = [] := by
  refine List.filterMap_eq_nil_iff.2 fun i hi => ?_
  have := h i hi
  cases i <;> first | rfl | cases this

theorem mem_jumpTargets {code : List Instruction} {name : String} :
    name ∈ jumpTargets code ↔ .goto name ∈ code ∨ .ifGoto name ∈ code := by
  rw [jumpTargets, List.mem_filterMap]
  constructor
  · rintro ⟨i, hi, same⟩
    cases i <;> simp_all
  · rintro (h | h)
    · exact ⟨_, h, rfl⟩
    · exact ⟨_, h, rfl⟩

theorem mem_declaredLabels {code : List Instruction} {name : String} :
    name ∈ declaredLabels code ↔ .label name ∈ code := by
  rw [declaredLabels, List.mem_filterMap]
  constructor
  · rintro ⟨i, hi, same⟩
    cases i <;> simp_all
  · exact fun h => ⟨_, h, rfl⟩

/-! ### Closed code -/

/-- Every label that the code jumps to is declared in it. -/
def ClosedCode (code : List Instruction) : Prop := jumpTargets code ⊆ declaredLabels code

section

variable {a b : List Instruction}

theorem ClosedCode.of_plain (h : PlainCode a) : ClosedCode a := by
  rw [ClosedCode, jumpTargets_plain h]
  exact List.nil_subset _

theorem ClosedCode.append (ha : ClosedCode a) (hb : ClosedCode b) : ClosedCode (a ++ b) := by
  intro label hl
  rw [jumpTargets_append, List.mem_append] at hl
  rw [declaredLabels_append, List.mem_append]
  exact hl.imp (ha ·) (hb ·)

/-- A statement around closed code may jump to labels that it declares itself. -/
theorem ClosedCode.enclose (h : ClosedCode a) (labels : List String)
    (jumps : jumpTargets b ⊆ labels ++ jumpTargets a)
    (declared : labels ++ declaredLabels a ⊆ declaredLabels b) : ClosedCode b := by
  intro label hl
  rcases List.mem_append.1 (jumps hl) with own | inner
  · exact declared (List.mem_append_left _ own)
  · exact declared (List.mem_append_right _ (h inner))

end

variable {className : String}

mutual

/-- The code of a statement is closed. -/
theorem Stmt.code_closed : ∀ {s : Stmt} {f f' : Frame} {code : List Instruction},
    s.code className f = .ok (code, f') → ClosedCode code
  | .declare d, f, _, _, h => by
    cases h
    exact .of_plain (List.forall_mem_nil _)
  | .assign name value position, f, _, _, h => by
    obtain ⟨a, ha, h⟩ := generated_bind.1 h
    obtain ⟨v, -, h⟩ := generated_bind.1 h
    cases h
    exact .of_plain (plainCode_append.2 ⟨Expr.code_plain ha, plainCode_singleton.2 rfl⟩)
  | .assignElement name subscript value position, f, _, _, h => by
    obtain ⟨a, ha, h⟩ := generated_bind.1 h
    obtain ⟨v, -, h⟩ := generated_bind.1 h
    obtain ⟨b, hb, h⟩ := generated_bind.1 h
    cases h
    refine .of_plain ?_
    simp only [plainCode_append, plainCode_singleton]
    exact ⟨⟨⟨Expr.code_plain ha, plainCode_cons.2 ⟨rfl, Expr.code_plain hb⟩⟩,
      selectElement_plain⟩, rfl⟩
  | .ifThen condition body, f, _, _, h => by
    obtain ⟨a, ha, h⟩ := generated_bind.1 h
    obtain ⟨⟨b, f₁⟩, hb, h⟩ := generated_bind.1 h
    cases h
    have plain := Expr.code_plain ha
    refine (blockCode_closed hb).enclose [doneLabel f.nextLabel] ?_ ?_
    · simp [jumpTargets_plain plain]
    · simp [declaredLabels_plain plain]
  | .ifElse condition body alternative, f, _, _, h => by
    obtain ⟨a, ha, h⟩ := generated_bind.1 h
    obtain ⟨⟨b, f₁⟩, hb, h⟩ := generated_bind.1 h
    obtain ⟨⟨c, f₂⟩, hc, h⟩ := generated_bind.1 h
    cases h
    have plain := Expr.code_plain ha
    have inner := (blockCode_closed hb).append (blockCode_closed hc)
    refine inner.enclose [elseLabel f.nextLabel, doneLabel f.nextLabel] ?_ ?_
    · intro label hl
      simpa [jumpTargets_plain plain, or_comm, or_left_comm, or_assoc] using hl
    · intro label hl
      simpa [declaredLabels_plain plain, or_comm, or_left_comm, or_assoc] using hl
  | .repeatWhile condition body, f, _, _, h => by
    obtain ⟨a, ha, h⟩ := generated_bind.1 h
    obtain ⟨⟨b, f₁⟩, hb, h⟩ := generated_bind.1 h
    cases h
    have plain := Expr.code_plain ha
    refine (blockCode_closed hb).enclose [startLabel f.nextLabel, endLabel f.nextLabel] ?_ ?_
    · intro label hl
      simpa [jumpTargets_plain plain, or_comm, or_left_comm, or_assoc] using hl
    · intro label hl
      simpa [declaredLabels_plain plain, or_comm, or_left_comm, or_assoc] using hl
  | .perform call position, f, _, _, h => by
    obtain ⟨a, ha, h⟩ := generated_bind.1 h
    cases h
    exact .of_plain (plainCode_append.2 ⟨Expr.code_plain ha, plainCode_singleton.2 rfl⟩)
  | .giveBack none position, f, _, _, h => by
    cases h
    exact List.nil_subset _
  | .giveBack (some value) position, f, _, _, h => by
    obtain ⟨a, ha, h⟩ := generated_bind.1 h
    cases h
    exact (ClosedCode.of_plain (Expr.code_plain ha)).append (List.nil_subset _)

/-- The code of a block is closed. -/
theorem blockCode_closed : ∀ {ss : List Stmt} {f f' : Frame} {code : List Instruction},
    blockCode className ss f = .ok (code, f') → ClosedCode code
  | [], f, _, _, h => by
    cases h
    exact .of_plain (List.forall_mem_nil _)
  | s :: ss, f, _, _, h => by
    obtain ⟨⟨a, f₁⟩, ha, h⟩ := generated_bind.1 h
    obtain ⟨⟨b, f₂⟩, hb, h⟩ := generated_bind.1 h
    cases h
    exact (Stmt.code_closed ha).append (blockCode_closed hb)

end

/-! ### Routines -/

/-- The code of a routine declares no label twice and is closed under its jumps. -/
theorem Routine.code_jumps {r : Routine} {table : Table} {code : List Instruction}
    (h : r.code className table = .ok code) :
    (declaredLabels code).Nodup ∧ ClosedCode code := by
  obtain ⟨body, f, hb, rfl⟩ := Routine.code_eq_ok h
  have plain := r.front_plain className table
  constructor
  · rw [declaredLabels_append, declaredLabels_plain plain]
    exact (blockCode_labels hb).distinct
  · exact (ClosedCode.of_plain plain).append (blockCode_closed hb)

/-- **No routine of a chunk declares a label twice, and every jump leads to a label of its own
routine.** -/
theorem ClassTree.chunk_jumps {c : ClassTree} {chunk : Chunk} (h : c.chunk = .ok chunk) :
    ∀ code ∈ chunk.routines, (declaredLabels code).Nodup ∧
      ∀ name, .goto name ∈ code ∨ .ifGoto name ∈ code → .label name ∈ code := by
  intro code member
  obtain ⟨r, -, hc⟩ := exists_mem_of_forall₂ (chunk_routines h) member
  obtain ⟨distinct, closed⟩ := Routine.code_jumps hc
  refine ⟨distinct, fun name jump => ?_⟩
  exact mem_declaredLabels.1 (closed (mem_jumpTargets.2 jump))

/-- `class Maze { function void walk() { while (true) { if (true) { } else { while (false) { } }
if (false) { return; } } } }` -/
def maze : ClassTree where
  name := "Maze"
  members := [
    .routine {
      kind := .function
      returnType := .void
      name := "walk"
      parameters := []
      body := [
        .repeatWhile (.boolean true) [
          .ifElse (.boolean true) [] [.repeatWhile (.boolean false) []],
          .ifThen (.boolean false) [.giveBack none none]]]
      position := none }]
  position := none

/-- Loops and branches inside and beside each other share no label: there are seven. -/
theorem maze_jumps : ∃ chunk code, maze.chunk = .ok chunk ∧ code ∈ chunk.routines ∧
    (declaredLabels code).length = 7 ∧ (declaredLabels code).Nodup ∧
    ∀ name, .goto name ∈ code ∨ .ifGoto name ∈ code → .label name ∈ code := by
  have h : maze.chunk = .ok _ := rfl
  have all := ClassTree.chunk_routines h
  obtain ⟨code, only⟩ := List.length_eq_one_iff.1 all.length_eq.symm
  have member : code ∈ Chunk.routines _ := only ▸ List.mem_singleton_self code
  obtain ⟨distinct, closed⟩ := ClassTree.chunk_jumps h code member
  refine ⟨_, code, h, member, ?_, distinct, closed⟩
  obtain ⟨r, hr, hc⟩ := exists_mem_of_forall₂ all member
  cases List.mem_singleton.1 hr
  cases hc
  rfl

end JackCompiler
