import JackCompiler.Proofs.Generation.PlainCode
import JackCompiler.Proofs.Text.Digits
import Mathlib.Data.List.Nodup
/-!
# Labels

The labels of a routine are numbered by a counter that only grows, so a piece of code declares
labels with numbers between the counter in front of it and the counter behind it. Whatever its tag,
a label ends in an underscore and the digits of its number, so labels with different numbers are
different, and a routine declares no label twice.
-/

namespace JackCompiler

/-- The labels that a piece of code declares, in order. -/
def declaredLabels (code : List Instruction) : List String :=
  code.filterMap fun
    | .label name => some name
    | _ => none

@[simp] theorem declaredLabels_append (a b : List Instruction) :
    declaredLabels (a ++ b) = declaredLabels a ++ declaredLabels b := List.filterMap_append

@[simp] theorem declaredLabels_label (name : String) (code : List Instruction) :
    declaredLabels (.label name :: code) = name :: declaredLabels code := rfl

@[simp] theorem declaredLabels_goto (name : String) (code : List Instruction) :
    declaredLabels (.goto name :: code) = declaredLabels code := rfl

@[simp] theorem declaredLabels_nil : declaredLabels [] = [] := rfl

@[simp] theorem declaredLabels_unlessGoto (label : String) :
    declaredLabels (unlessGoto label) = [] := rfl

theorem declaredLabels_plain {code : List Instruction} (h : PlainCode code) :
    declaredLabels code = [] := by
  refine List.filterMap_eq_nil_iff.2 fun i hi => ?_
  have := h i hi
  cases i <;> first | rfl | cases this

/-! ### The number of a label -/

/-- The label ends in the digits of a number, with no digit in front of them. -/
def HasNumber (label : String) (n : Nat) : Prop :=
  label.toList.reverse.takeWhile Char.isDigit = (Nat.repr n).toList.reverse

theorem HasNumber.unique {label : String} {n k : Nat} (h : HasNumber label n)
    (h' : HasNumber label k) : n = k := by
  have same : (Nat.repr n).toList = (Nat.repr k).toList := List.reverse_injective (h.symm.trans h')
  exact eq_of_repr (String.toList_inj.1 same)

/-- A tag that ends in no digit gives a label with the number behind it. -/
theorem hasNumber_append {tag : String} {last : Char} {before : List Char}
    (h : tag.toList.reverse = last :: before) (hl : last.isDigit = false) (n : Nat) :
    HasNumber (tag ++ toString n) n := by
  have digits : ∀ c ∈ (Nat.repr n).toList.reverse, c.isDigit = true := by
    intro c hc
    rw [List.mem_reverse, Nat.toList_repr] at hc
    exact Nat.isDigit_of_mem_toDigits (by omega) (by omega) hc
  change (tag ++ Nat.repr n).toList.reverse.takeWhile Char.isDigit = _
  rw [String.toList_append, List.reverse_append, List.takeWhile_append_of_pos digits, h,
    List.takeWhile_cons_of_neg (by simp [hl]), List.append_nil]

theorem elseLabel_number (n : Nat) : HasNumber (elseLabel n) n := hasNumber_append rfl rfl n

theorem doneLabel_number (n : Nat) : HasNumber (doneLabel n) n := hasNumber_append rfl rfl n

theorem startLabel_number (n : Nat) : HasNumber (startLabel n) n := hasNumber_append rfl rfl n

theorem endLabel_number (n : Nat) : HasNumber (endLabel n) n := hasNumber_append rfl rfl n

/-- Labels of one number with different tags are different. -/
theorem tag_injective {tag tag' : String} {n : Nat} (h : tag ++ toString n = tag' ++ toString n) :
    tag = tag' := by
  have := congrArg String.toList h
  rw [String.toList_append, String.toList_append] at this
  exact String.toList_inj.1 (List.append_cancel_right this)

theorem elseLabel_ne_doneLabel (n : Nat) : elseLabel n ≠ doneLabel n :=
  fun h => absurd (tag_injective h) (by decide)

theorem startLabel_ne_endLabel (n : Nat) : startLabel n ≠ endLabel n :=
  fun h => absurd (tag_injective h) (by decide)

/-! ### The labels of a piece of code -/

/-- The code declares labels with numbers from `low` on and below `high`, none of them twice. -/
structure LabelsWithin (low high : Nat) (code : List Instruction) : Prop where
  le : low ≤ high
  numbered : ∀ label ∈ declaredLabels code, ∃ n, HasNumber label n ∧ low ≤ n ∧ n < high
  distinct : (declaredLabels code).Nodup

namespace LabelsWithin

variable {low mid high n : Nat} {a b c : List Instruction}

theorem of_eq_nil (h : declaredLabels a = []) (n : Nat) : LabelsWithin n n a := by
  refine ⟨le_rfl, ?_, ?_⟩ <;> simp [h]

theorem of_plain (h : PlainCode a) (n : Nat) : LabelsWithin n n a :=
  of_eq_nil (declaredLabels_plain h) n

/-- A label with another number is not among them. -/
theorem not_mem (h : LabelsWithin low high a) {label : String} (number : HasNumber label n)
    (out : n < low ∨ high ≤ n) : label ∉ declaredLabels a := by
  intro hl
  obtain ⟨k, hk, _, _⟩ := h.numbered label hl
  have := number.unique hk
  omega

theorem append (ha : LabelsWithin low mid a) (hb : LabelsWithin mid high b) :
    LabelsWithin low high (a ++ b) where
  le := ha.le.trans hb.le
  numbered label hl := by
    rw [declaredLabels_append, List.mem_append] at hl
    rcases hl with hl | hl
    · obtain ⟨n, hn, h, h'⟩ := ha.numbered label hl
      exact ⟨n, hn, h, h'.trans_le hb.le⟩
    · obtain ⟨n, hn, h, h'⟩ := hb.numbered label hl
      exact ⟨n, hn, ha.le.trans h, h'⟩
  distinct := by
    rw [declaredLabels_append]
    refine ha.distinct.append hb.distinct fun label h h' => ?_
    obtain ⟨n, hn, -, lt⟩ := ha.numbered label h
    exact hb.not_mem hn (.inl lt) h'

/-- Labels with the number in front of the others may stand among them, in whatever order. -/
theorem enclose (h : LabelsWithin (n + 1) high a) (labels : List String)
    (number : ∀ label ∈ labels, HasNumber label n) (distinct : labels.Nodup)
    (same : (declaredLabels b).Perm (labels ++ declaredLabels a)) : LabelsWithin n high b where
  le := by have := h.le; omega
  numbered label hl := by
    rcases List.mem_append.1 (same.mem_iff.1 hl) with hl | hl
    · exact ⟨n, number label hl, le_rfl, h.le⟩
    · obtain ⟨k, hk, lt, lt'⟩ := h.numbered label hl
      exact ⟨k, hk, by omega, lt'⟩
  distinct := by
    rw [same.nodup_iff]
    refine distinct.append h.distinct fun label hl => ?_
    exact h.not_mem (number label hl) (.inl (Nat.lt_succ_self n))

end LabelsWithin

variable {className : String}

mutual

/-- A statement declares labels with the numbers that it takes. -/
theorem Stmt.code_labels : ∀ {s : Stmt} {f f' : Frame} {code : List Instruction},
    s.code className f = .ok (code, f') → LabelsWithin f.nextLabel f'.nextLabel code
  | .declare d, f, _, _, h => by
    cases h
    exact .of_plain (List.forall_mem_nil _) _
  | .assign name value position, f, _, _, h => by
    obtain ⟨a, ha, h⟩ := generated_bind.1 h
    obtain ⟨v, -, h⟩ := generated_bind.1 h
    cases h
    exact .of_plain (plainCode_append.2 ⟨Expr.code_plain ha, plainCode_singleton.2 rfl⟩) _
  | .assignElement name subscript value position, f, _, _, h => by
    obtain ⟨a, ha, h⟩ := generated_bind.1 h
    obtain ⟨v, -, h⟩ := generated_bind.1 h
    obtain ⟨b, hb, h⟩ := generated_bind.1 h
    cases h
    refine .of_plain ?_ _
    simp only [plainCode_append, plainCode_singleton]
    exact ⟨⟨⟨Expr.code_plain ha, plainCode_cons.2 ⟨rfl, Expr.code_plain hb⟩⟩,
      selectElement_plain⟩, rfl⟩
  | .ifThen condition body, f, _, _, h => by
    obtain ⟨a, ha, h⟩ := generated_bind.1 h
    obtain ⟨⟨b, f₁⟩, hb, h⟩ := generated_bind.1 h
    cases h
    have done := doneLabel_number f.nextLabel
    refine (blockCode_labels hb).enclose [doneLabel f.nextLabel] ?_ ?_ ?_
    · simpa using done
    · exact List.nodup_singleton _
    · simp [declaredLabels_plain (Expr.code_plain ha)]
  | .ifElse condition body alternative, f, _, _, h => by
    obtain ⟨a, ha, h⟩ := generated_bind.1 h
    obtain ⟨⟨b, f₁⟩, hb, h⟩ := generated_bind.1 h
    obtain ⟨⟨c, f₂⟩, hc, h⟩ := generated_bind.1 h
    cases h
    have inner := (blockCode_labels hb).append (blockCode_labels hc)
    refine inner.enclose [elseLabel f.nextLabel, doneLabel f.nextLabel] ?_ ?_ ?_
    · simpa using ⟨elseLabel_number _, doneLabel_number _⟩
    · simpa using elseLabel_ne_doneLabel _
    · rw [List.perm_iff_count]
      intro label
      simp [declaredLabels_plain (Expr.code_plain ha), List.count_cons]
      omega
  | .repeatWhile condition body, f, _, _, h => by
    obtain ⟨a, ha, h⟩ := generated_bind.1 h
    obtain ⟨⟨b, f₁⟩, hb, h⟩ := generated_bind.1 h
    cases h
    refine (blockCode_labels hb).enclose [startLabel f.nextLabel, endLabel f.nextLabel] ?_ ?_ ?_
    · simpa using ⟨startLabel_number _, endLabel_number _⟩
    · simpa using startLabel_ne_endLabel _
    · simp [declaredLabels_plain (Expr.code_plain ha)]
  | .perform call position, f, _, _, h => by
    obtain ⟨a, ha, h⟩ := generated_bind.1 h
    cases h
    exact .of_plain (plainCode_append.2 ⟨Expr.code_plain ha, plainCode_singleton.2 rfl⟩) _
  | .giveBack none position, f, _, _, h => by
    cases h
    exact .of_eq_nil rfl _
  | .giveBack (some value) position, f, _, _, h => by
    obtain ⟨a, ha, h⟩ := generated_bind.1 h
    cases h
    refine .of_eq_nil ?_ _
    rw [declaredLabels_append, declaredLabels_plain (Expr.code_plain ha)]
    rfl

/-- A block declares labels with the numbers that it takes. -/
theorem blockCode_labels : ∀ {ss : List Stmt} {f f' : Frame} {code : List Instruction},
    blockCode className ss f = .ok (code, f') → LabelsWithin f.nextLabel f'.nextLabel code
  | [], f, _, _, h => by
    cases h
    exact .of_plain (List.forall_mem_nil _) _
  | s :: ss, f, _, _, h => by
    obtain ⟨⟨a, f₁⟩, ha, h⟩ := generated_bind.1 h
    obtain ⟨⟨b, f₂⟩, hb, h⟩ := generated_bind.1 h
    cases h
    exact (Stmt.code_labels ha).append (blockCode_labels hb)

end

end JackCompiler
