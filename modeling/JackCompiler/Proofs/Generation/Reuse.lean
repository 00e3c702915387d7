import JackCompiler.Proofs.Generation.Routines
/-!
# A generator used again

One generator takes classes one after the other. A class that is accepted hands out all that is
finished and leaves nothing. A class that is refused hands out its error, and the routines in front
of the one that was refused stay behind: they will stand in front of the next class accepted.

        accepted     what was left, and its own chunk      ──▶  nothing is left
        refused      the error                             ──▶  what was left, and what it finished
-/

namespace JackCompiler

/-! ### What a class finishes -/

/-- The instructions of the routines in front of the first that is refused. -/
def finishedCode (className : String) (table : Table) : List Routine → List Instruction
  | [] => []
  | r :: rs =>
    match r.code className table with
    | .ok code => code ++ finishedCode className table rs
    | .error _ => []

namespace ClassTree

variable {c : ClassTree}

/-- The instructions of the routines of a class, up to the first that is refused. -/
def finishedCode (c : ClassTree) : List Instruction :=
  JackCompiler.finishedCode c.name c.table c.routines

/-- Whether a class has a chunk. -/
def HasChunk (c : ClassTree) : Prop := ∃ k, c.chunk = .ok k

/-- Whether a class has no chunk. -/
def Refused (c : ClassTree) : Prop := ∃ e, c.chunk = .error e

/-- Whether already the first routine of a class is refused. -/
def RefusedAtOnce (c : ClassTree) : Prop :=
  ∃ r rs e, c.routines = r :: rs ∧ r.code c.name c.table = .error e

theorem hasChunk_or_refused (c : ClassTree) : c.HasChunk ∨ c.Refused := by
  cases h : c.chunk with
  | ok k => exact .inl ⟨k, h⟩
  | error e => exact .inr ⟨e, h⟩

theorem Refused.not_hasChunk (h : c.Refused) : ¬ c.HasChunk := by
  obtain ⟨e, he⟩ := h
  rintro ⟨k, hk⟩
  rw [he] at hk
  cases hk

end ClassTree

namespace Generator

variable (className : String) (table : Table) {c : ClassTree}

/-- The instructions that a generator has finished, in order. -/
def left (g : Generator) : List Instruction := g.finished.reverse.flatten

@[simp] theorem left_fresh : fresh.left = [] := rfl

@[simp] theorem left_cons (code : List Instruction) (g : Generator) :
    left ⟨code :: g.finished⟩ = g.left ++ code := by simp [left]

/-- Routines are finished behind those from before. -/
theorem finishRoutines_left (g : Generator) (rs : List Routine) :
    (finishRoutines className table g rs).1.left = g.left ++ finishedCode className table rs := by
  induction rs generalizing g with
  | nil => simp [finishRoutines, finishedCode]
  | cons r rs ih =>
    rw [finishRoutines, finishedCode]
    cases r.code className table with
    | ok code =>
      change (finishRoutines className table ⟨code :: g.finished⟩ rs).1.left = _
      rw [ih, left_cons, List.append_assoc]
    | error e => exact (List.append_nil _).symm

/-- Which routine is refused, and why, does not depend on those from before. -/
theorem finishRoutines_refusal (g g' : Generator) (rs : List Routine) :
    (finishRoutines className table g rs).2 = (finishRoutines className table g' rs).2 := by
  induction rs generalizing g g' with
  | nil => rfl
  | cons r rs ih =>
    rw [finishRoutines, finishRoutines]
    cases r.code className table with
    | ok code => exact ih _ _
    | error e => rfl

/-! ### One class -/

/-- A class that is accepted is handed out behind what was left, and nothing is left. Of a class
that is refused, what it has finished is left too. -/
theorem generate_cases (g : Generator) (c : ClassTree) :
    (∃ k, c.chunk = .ok k ∧ g.generate c = (.ok ⟨g.left ++ k.instructions⟩, fresh)) ∨
      ∃ e g', c.chunk = .error e ∧ g.generate c = (.error e, g') ∧
        g'.left = g.left ++ c.finishedCode := by
  have refusal := finishRoutines_refusal c.name c.table fresh g c.routines
  have left := finishRoutines_left c.name c.table g c.routines
  have alone := finishRoutines_left c.name c.table fresh c.routines
  rw [ClassTree.chunk, generate, generate]
  generalize finishRoutines c.name c.table fresh c.routines = first at refusal alone ⊢
  generalize finishRoutines c.name c.table g c.routines = second at refusal left ⊢
  obtain ⟨g₁, e₁⟩ := first
  obtain ⟨g₂, e₂⟩ := second
  obtain rfl : e₁ = e₂ := refusal
  cases e₁ with
  | none =>
    refine .inl ⟨⟨g₁.left⟩, rfl, ?_⟩
    change (Except.ok (Chunk.mk g₂.left), fresh) = _
    rw [show g₂.left = g.left ++ g₁.left by rw [left, alone, left_fresh, List.nil_append]]
  | some e => exact .inr ⟨e, g₂, rfl, rfl, left⟩

/-! ### Classes one after the other -/

/-- The answers of a generator to classes one after the other. -/
def answers : Generator → List ClassTree → List (Generated Chunk)
  | _, [] => []
  | g, c :: cs => (g.generate c).1 :: (g.generate c).2.answers cs

/-- What is left behind a class. -/
def leftBehind (left : List Instruction) (c : ClassTree) : List Instruction :=
  match c.chunk with
  | .ok _ => []
  | .error _ => left ++ c.finishedCode

theorem leftBehind_hasChunk (left : List Instruction) (h : c.HasChunk) :
    leftBehind left c = [] := by
  obtain ⟨k, hk⟩ := h
  rw [leftBehind, hk]

theorem leftBehind_refused (left : List Instruction) (h : c.Refused) :
    leftBehind left c = left ++ c.finishedCode := by
  obtain ⟨e, he⟩ := h
  rw [leftBehind, he]

theorem generate_left (g : Generator) (c : ClassTree) :
    (g.generate c).2.left = leftBehind g.left c := by
  rcases generate_cases g c with ⟨k, hk, same⟩ | ⟨e, g', he, same, left⟩
  · rw [same, leftBehind_hasChunk _ ⟨k, hk⟩, left_fresh]
  · rw [same, leftBehind_refused _ ⟨e, he⟩, left]

/-- The answer to a class is its chunk behind what is left, or its error. -/
theorem generate_answer (g : Generator) (c : ClassTree) :
    (g.generate c).1 = c.chunk.map fun k => ⟨g.left ++ k.instructions⟩ := by
  rcases generate_cases g c with ⟨k, hk, same⟩ | ⟨e, g', he, same, -⟩
  · rw [same, hk]
    rfl
  · rw [same, he]
    rfl

/-- Each answer is the chunk of its class behind what the classes in front have left. -/
theorem answers_getElem? (g : Generator) (cs : List ClassTree) (i : Nat) :
    (g.answers cs)[i]? = cs[i]?.map fun c => c.chunk.map fun k =>
      ⟨(cs.take i).foldl leftBehind g.left ++ k.instructions⟩ := by
  induction cs generalizing g i with
  | nil => rfl
  | cons c cs ih =>
    cases i with
    | zero => simp [answers, generate_answer]
    | succ i => simp [answers, ih, generate_left]

/-! ### When nothing is left -/

/-- A class that is refused finishes nothing exactly if its first routine is refused. -/
theorem finishedCode_eq_nil (h : c.Refused) : c.finishedCode = [] ↔ c.RefusedAtOnce := by
  rw [ClassTree.finishedCode, ClassTree.RefusedAtOnce]
  constructor
  · intro nothing
    cases hr : c.routines with
    | nil =>
      -- a class without routines is accepted
      refine absurd ⟨⟨[]⟩, ?_⟩ h.not_hasChunk
      rw [ClassTree.chunk, generate, hr]
      rfl
    | cons r rs =>
      rw [hr, finishedCode] at nothing
      cases hcode : r.code c.name c.table with
      | ok code =>
        rw [hcode] at nothing
        exact absurd (List.append_eq_nil_iff.1 nothing).1 (Routine.code_isRoutine hcode).ne_nil
      | error e => exact ⟨r, rs, e, rfl, hcode⟩
  · rintro ⟨r, rs, e, hr, hcode⟩
    rw [hr, finishedCode, hcode]

/-- Where a list with a last element is cut, the part behind ends in that element. -/
theorem concat_eq_append_cons {α : Type} {xs before between : List α} {last d : α} :
    xs ++ [last] = before ++ d :: between ↔ (xs = before ∧ last = d ∧ between = []) ∨
      ∃ front, between = front ++ [last] ∧ xs = before ++ d :: front := by
  constructor
  · intro split
    rcases between.eq_nil_or_concat with rfl | ⟨front, x, rfl⟩
    · obtain ⟨rfl, same⟩ := List.append_inj' split rfl
      cases same
      exact .inl ⟨rfl, rfl, rfl⟩
    · rw [List.concat_eq_append] at split ⊢
      rw [← List.cons_append, ← List.append_assoc] at split
      obtain ⟨rfl, same⟩ := List.append_inj' split rfl
      cases same
      exact .inr ⟨front, rfl, rfl⟩
  · rintro (⟨rfl, rfl, rfl⟩ | ⟨front, rfl, rfl⟩)
    · rfl
    · simp

/-- Nothing is left behind some classes exactly if none of those behind the last that is accepted
has finished a routine. -/
theorem foldl_leftBehind_eq_nil (cs : List ClassTree) : cs.foldl leftBehind [] = [] ↔
    ∀ before d between, cs = before ++ d :: between → (∀ x ∈ d :: between, x.Refused) →
      d.finishedCode = [] := by
  induction cs using List.reverseRecOn with
  | nil => simp
  | append_singleton cs last ih =>
    rw [List.foldl_concat]
    rcases last.hasChunk_or_refused with accepted | refused
    · rw [leftBehind_hasChunk _ accepted]
      refine iff_of_true rfl fun before d between split all => ?_
      have member : last ∈ d :: between := by
        obtain ⟨-, rfl, -⟩ | ⟨front, rfl, -⟩ := concat_eq_append_cons.1 split
        · exact .head _
        · simp
      exact absurd accepted (all last member).not_hasChunk
    · rw [leftBehind_refused _ refused, List.append_eq_nil_iff, ih]
      constructor
      · rintro ⟨front, none⟩ before d between split all
        obtain ⟨-, rfl, -⟩ | ⟨between, rfl, rfl⟩ := concat_eq_append_cons.1 split
        · exact none
        · exact front before d between rfl fun x hx => all x (List.mem_append_left [last] hx)
      · intro all
        refine ⟨fun before d between split refusals => ?_, ?_⟩
        · refine all before d _ (concat_eq_append_cons.2 (.inr ⟨between, rfl, split⟩)) ?_
          exact List.forall_mem_append.2 ⟨refusals, List.forall_mem_singleton.2 refused⟩
        · exact all cs last [] rfl (List.forall_mem_singleton.2 refused)

/-- **What a generator answers when it is used again.** Each answer is that of a fresh generator,
with the routines in front that classes refused since the last accepted one have finished. So the
answers are those of fresh generators exactly if every refused class that an accepted one follows,
perhaps behind more refused ones, is refused at its first routine. -/
theorem answers_reused (cs : List ClassTree) :
    (∀ i : Nat, (fresh.answers cs)[i]? = cs[i]?.map fun c => c.chunk.map fun k =>
      ⟨(cs.take i).foldl leftBehind [] ++ k.instructions⟩) ∧
    (fresh.answers cs = cs.map ClassTree.chunk ↔
      ∀ before d between c behind, cs = before ++ d :: between ++ c :: behind →
        (∀ x ∈ d :: between, x.Refused) → c.HasChunk → d.RefusedAtOnce) := by
  have answer := answers_getElem? fresh cs
  refine ⟨answer, ?_⟩
  constructor
  · intro same before d between c behind split refusals ⟨k, hk⟩
    refine (finishedCode_eq_nil (refusals d (.head _))).1 ?_
    refine (foldl_leftBehind_eq_nil (before ++ d :: between)).1 ?_ before d between rfl refusals
    -- the answer to the accepted class is its chunk alone
    have here := answer (before ++ d :: between).length
    rw [same, split, List.take_left, List.getElem?_map, List.getElem?_append_right le_rfl,
      Nat.sub_self, List.getElem?_cons_zero, Option.map_some, Option.map_some, hk] at here
    have chunk := congrArg Chunk.instructions (Except.ok.inj (Option.some.inj here))
    exact List.self_eq_append_left.1 chunk
  · intro all
    refine List.ext_getElem? fun i => ?_
    rw [answer, List.getElem?_map]
    cases hc : cs[i]? with
    | none => rfl
    | some c =>
      rcases c.hasChunk_or_refused with ⟨k, hk⟩ | ⟨e, he⟩
      · have nothing : (cs.take i).foldl leftBehind [] = [] := by
          refine (foldl_leftBehind_eq_nil _).2 fun before d between split refusals => ?_
          refine (finishedCode_eq_nil (refusals d (.head _))).2 ?_
          obtain ⟨inside, rfl⟩ := List.getElem?_eq_some_iff.1 hc
          have whole : cs = before ++ d :: between ++ cs[i] :: cs.drop (i + 1) := by
            rw [← split, List.cons_getElem_drop_succ, List.take_append_drop]
          exact all before d between _ _ whole refusals ⟨k, hk⟩
        rw [Option.map_some, Option.map_some, left_fresh, nothing, hk]
        rfl
      · rw [Option.map_some, Option.map_some, he]
        rfl

/-- `class Half { function int one() { return 1; } function int two() { return y; } }` -/
def half : ClassTree where
  name := "Half"
  members := [
    .routine ⟨.function, .int, "one", [], [.giveBack (some (.constant 1 none)) none], none⟩,
    .routine ⟨.function, .int, "two", [], [.giveBack (some (.reference "y" none)) none], none⟩]
  position := none

/-- `class Whole { function int three() { return 3; } }` -/
def whole : ClassTree where
  name := "Whole"
  members := [
    .routine ⟨.function, .int, "three", [], [.giveBack (some (.constant 3 none)) none], none⟩]
  position := none

/-- A routine of the class refused stands in front of the class accepted. -/
theorem half_left_behind :
    whole.chunk = .ok ⟨[.function "Whole.three" 0, .push .constant 3, .giveBack]⟩ ∧
    fresh.answers [half, whole] = [.error (.unresolvedName "y" none),
      .ok ⟨[.function "Half.one" 0, .push .constant 1, .giveBack,
        .function "Whole.three" 0, .push .constant 3, .giveBack]⟩] := ⟨rfl, rfl⟩

end Generator

end JackCompiler
