import JackCompiler.Syntax.Step
/-!
# Runs of digits

A run of decimal digits denotes a number, however many zeros stand in front. Reading it gives that
number as a word if it is small enough, and nothing otherwise. A word may also have a sign in front,
and that is all: the texts from which a word is read are its numerals.
-/

namespace JackCompiler

/-- Whether a text is a run of decimal digits. -/
def IsDigits (s : String) : Prop := s ≠ "" ∧ ∀ c ∈ s.toList, c.isDigit

/-- The number that decimal digits denote. -/
def decimalValue (digits : List Char) : Nat :=
  digits.foldl (fun n c => n * 10 + (c.toNat - '0'.toNat)) 0

/-- The text denotes a word: decimal digits, with any number of zeros in front, and perhaps a plus
sign in front of these. -/
def IsNumeral (s : String) (n : UInt16) : Prop :=
  ∃ digits, IsDigits digits ∧ decimalValue digits.toList = n.toNat ∧
    (s = digits ∨ s = "+" ++ digits)

/-- Digits have no sign in front. -/
theorem IsDigits.unsigned {s : String} (h : IsDigits s) (rest : List Char) :
    s.toList ≠ '+' :: rest := by
  intro same
  have digit : '+'.isDigit := h.2 '+' (by simp [same])
  cases digit

/-- A number is written in decimal digits. -/
theorem isDigits_toString (n : Nat) : IsDigits (toString n) := by
  have chars : (toString n).toList = Nat.toDigits 10 n := Nat.toList_repr
  refine ⟨fun empty => ?_, fun c hc => ?_⟩
  · rw [empty] at chars
    exact Nat.toDigits_ne_nil chars.symm
  · rw [chars] at hc
    exact Nat.isDigit_of_mem_toDigits (by decide) (by decide) hc

/-- A number is known by its digits. -/
theorem eq_of_repr {n k : Nat} (h : n.repr = k.repr) : n = k := by
  have same : Nat.toDigits 10 n = Nat.toDigits 10 k := by
    rw [← Nat.toList_repr, ← Nat.toList_repr, h]
  calc n = Nat.ofDigitChars 10 (Nat.toDigits 10 n) 0 := Nat.ofDigitChars_ten_toDigits.symm
    _ = Nat.ofDigitChars 10 (Nat.toDigits 10 k) 0 := by rw [same]
    _ = k := Nat.ofDigitChars_ten_toDigits

/-- The digits of a word are one of its numerals. -/
theorem isNumeral_toString (n : UInt16) : IsNumeral (toString n) n := by
  have chars : (toString n).toList = Nat.toDigits 10 n.toNat := Nat.toList_repr
  have value : decimalValue (toString n).toList = n.toNat := by
    calc decimalValue (toString n).toList
        = Nat.ofDigitChars 10 (Nat.toDigits 10 n.toNat) 0 := by
          rw [chars, decimalValue, Nat.ofDigitChars_eq_foldl]
          simp only [Nat.mul_comm]
      _ = n.toNat := Nat.ofDigitChars_ten_toDigits
  exact ⟨_, isDigits_toString n.toNat, value, .inl rfl⟩

namespace Decimal

/-! ### Numbers -/

theorem digit?_eq_some {c : Char} (h : c.isDigit) : digit? c = some (c.toNat - '0'.toNat) := by
  rw [Char.isDigit, Bool.and_eq_true, decide_eq_true_eq, decide_eq_true_eq] at h
  exact if_pos h

theorem digit?_eq_none {c : Char} (h : ¬ c.isDigit) : digit? c = none := by
  rw [Char.isDigit, Bool.and_eq_true, decide_eq_true_eq, decide_eq_true_eq] at h
  exact if_neg h

theorem readOnto_digits {digits : List Char} (h : ∀ c ∈ digits, c.isDigit) (n : Nat) :
    readOnto n digits = some (digits.foldl (fun n c => n * 10 + (c.toNat - '0'.toNat)) n) := by
  induction digits generalizing n with
  | nil => rfl
  | cons c rest ih =>
    obtain ⟨hc, rest_digits⟩ := List.forall_mem_cons.1 h
    rw [readOnto, digit?_eq_some hc]
    exact ih rest_digits _

/-- Only digits are read. -/
theorem isDigit_of_readOnto {cs : List Char} {n m : Nat} (h : readOnto n cs = some m) :
    ∀ c ∈ cs, c.isDigit := by
  induction cs generalizing n with
  | nil => exact List.forall_mem_nil _
  | cons c rest ih =>
    by_cases hc : c.isDigit
    · rw [readOnto, digit?_eq_some hc] at h
      exact List.forall_mem_cons.2 ⟨hc, ih h⟩
    · rw [readOnto, digit?_eq_none hc] at h
      cases h

/-- A number is read from digits, and it is the number that they denote. -/
theorem natural?_eq_some {s : String} {n : Nat} :
    natural? s.toList = some n ↔ IsDigits s ∧ decimalValue s.toList = n := by
  rw [IsDigits, Ne, ← String.toList_eq_nil_iff]
  cases s.toList with
  | nil => simp [natural?]
  | cons c rest =>
    constructor
    · intro h
      have digits := isDigit_of_readOnto h
      have value : some (decimalValue (c :: rest)) = some n :=
        (readOnto_digits digits 0).symm.trans h
      exact ⟨⟨List.cons_ne_nil _ _, digits⟩, Option.some.inj value⟩
    · rintro ⟨⟨-, digits⟩, rfl⟩
      exact readOnto_digits digits 0

/-! ### Words -/

/-- A number that is small enough, as a word. -/
def small? (n : Nat) : Option UInt16 := if n < 65536 then some (UInt16.ofNat n) else none

theorem small?_eq_some {m : Nat} {n : UInt16} : small? m = some n ↔ m = n.toNat := by
  unfold small?
  constructor
  · intro h
    split at h
    · next small =>
      cases h
      exact (UInt16.toNat_ofNat_of_lt' small).symm
    · cases h
  · rintro rfl
    rw [if_pos n.toNat_lt, UInt16.ofNat_toNat]

/-- Behind a plus sign a number is read. -/
theorem word?_plus (rest : List Char) : word? ('+' :: rest) = (natural? rest).bind small? := by
  cases found : natural? rest <;> simp [word?, small?, found]

/-- Without a sign the whole text is read as a number. -/
theorem word?_unsigned {s : List Char} (h : ∀ rest, s ≠ '+' :: rest) :
    word? s = (natural? s).bind small? := by
  cases found : natural? s <;> simp [word?, small?, found]

/-- A run of digits is read as the word it denotes, if that is a word. -/
theorem word?_digits {s : String} (h : IsDigits s) :
    word? s.toList =
      if decimalValue s.toList < 65536 then some (.ofNat (decimalValue s.toList)) else none := by
  rw [word?_unsigned h.unsigned, natural?_eq_some.2 ⟨h, rfl⟩]
  rfl

theorem bind_small?_eq_some {s : String} {n : UInt16} :
    (natural? s.toList).bind small? = some n ↔
      IsDigits s ∧ decimalValue s.toList = n.toNat := by
  simp only [Option.bind_eq_some_iff, natural?_eq_some, small?_eq_some]
  grind

/-- A word is read from its numerals, and from no other text. -/
theorem word?_eq_some {s : String} {n : UInt16} : word? s.toList = some n ↔ IsNumeral s n := by
  by_cases signed : ∃ digits : String, s = "+" ++ digits
  · obtain ⟨digits, rfl⟩ := signed
    have chars : ("+" ++ digits).toList = '+' :: digits.toList := by simp
    rw [chars, word?_plus, bind_small?_eq_some]
    constructor
    · rintro ⟨digital, value⟩
      exact ⟨digits, digital, value, .inr rfl⟩
    · rintro ⟨other, digital, value, rfl | same⟩
      · exact absurd chars (digital.unsigned _)
      · rw [(String.append_right_inj _).1 same]
        exact ⟨digital, value⟩
  · have unsigned : ∀ rest, s.toList ≠ '+' :: rest := by
      intro rest same
      refine signed ⟨String.ofList rest, ?_⟩
      rw [← String.toList_inj, same]
      simp
    rw [word?_unsigned unsigned, bind_small?_eq_some]
    constructor
    · rintro ⟨digital, value⟩
      exact ⟨s, digital, value, .inl rfl⟩
    · rintro ⟨digits, digital, value, rfl | rfl⟩
      · exact ⟨digital, value⟩
      · exact absurd ⟨digits, rfl⟩ signed

end Decimal

/-- A token of digits denotes a number that a class can write down, if it is small enough. -/
theorem Token.constant?_digits {t : Token} (h : IsDigits t.value) :
    t.constant? = if decimalValue t.value.toList ≤ largestConstant then
      some (.ofNat (decimalValue t.value.toList)) else none := by
  rw [constant?, Decimal.word?_digits h]
  split
  · next n found =>
    split at found
    · next word =>
      cases found
      rw [UInt16.toNat_ofNat_of_lt' word]
    · cases found
  · next found =>
    split at found
    · cases found
    · next large =>
      rw [if_neg]
      intro small
      exact large (Nat.lt_of_le_of_lt small (by decide))

end JackCompiler
