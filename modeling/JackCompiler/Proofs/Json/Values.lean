import JackCompiler.Json.Value
import JackCompiler.Proofs.Json.Strings
/-!
# Texts and counts in JSON are read back

A count that has been written is digits with no needless zero in front. They fit in a word, and a
word is far below the numbers that are rounded beyond the doubles, so the number that is read is no
huge one. A text is a string, and a missing one is a word.
-/

namespace JackCompiler.Json

/-! ### Digits -/

/-- A number begins with a digit, and this is no needless zero. -/
theorem toDigits_eq_cons (n : Nat) :
    ∃ d ds, Nat.toDigits 10 n = d :: ds ∧ d.isDigit ∧ (0 < n → d ≠ '0') := by
  induction n using Nat.strongRecOn with
  | ind n ih =>
    by_cases small : n < 10
    · have digit : ∀ k, k < 10 → k.digitChar.isDigit ∧ (0 < k → k.digitChar ≠ '0') := by decide
      exact ⟨_, _, Nat.toDigits_of_lt_base small, digit n small⟩
    · obtain ⟨d, ds, front, digit, nonzero⟩ := ih (n / 10) (by omega)
      refine ⟨d, ds ++ [(n % 10).digitChar], ?_, digit, fun _ => nonzero (by omega)⟩
      rw [Nat.toDigits_of_base_le (by decide) (Nat.not_lt.1 small), front, List.cons_append]

theorem isDigit_toDigits {n : Nat} : ∀ c ∈ Nat.toDigits 10 n, c.isDigit :=
  fun _ h => Nat.isDigit_of_mem_toDigits (by decide) (by decide) h

theorem isBlank_of_isDigit {c : Char} (digit : c.isDigit) : isBlank c = false := by
  refine Bool.eq_false_iff.2 fun blank => ?_
  simp only [isBlank, Bool.or_eq_true, decide_eq_true_eq] at blank
  obtain ((rfl | rfl) | rfl) | rfl := blank <;> exact absurd digit (by decide)

/-- Only the digit zero is worth nothing. -/
theorem digitValue_eq_zero {c : Char} (digit : c.isDigit) (h : digitValue c = 0) : c = '0' := by
  rw [Char.isDigit, Bool.and_eq_true, decide_eq_true_eq, decide_eq_true_eq] at digit
  have least : 48 ≤ c.toNat := digit.1
  have zero : c.toNat = 48 := Nat.le_antisymm (Nat.sub_eq_zero_iff_le.1 h) least
  rw [← Char.ofNat_toNat c, zero]

/-- The values of the digits of a number, the first one first. -/
def digitsOf (n : Nat) : List Nat := (Nat.toDigits 10 n).map digitValue

theorem valueOf_digitsOf (n : Nat) : valueOf (digitsOf n) = n :=
  calc valueOf (digitsOf n)
      = Nat.ofDigitChars 10 (Nat.toDigits 10 n) 0 := by
        rw [valueOf, digitsOf, List.foldl_map, Nat.ofDigitChars_eq_foldl]
        rfl
    _ = n := Nat.ofDigitChars_ten_toDigits

/-- A zero stands in front of no other digit. -/
theorem not_needless (n : Nat) : ¬ ((digitsOf n).head? = some 0 ∧ 1 < (digitsOf n).length) := by
  rintro ⟨front, long⟩
  obtain rfl | positive := Nat.eq_zero_or_pos n
  · exact absurd long (by decide)
  · obtain ⟨d, ds, spelled, digit, nonzero⟩ := toDigits_eq_cons n
    rw [digitsOf, spelled] at front
    exact nonzero positive (digitValue_eq_zero digit (Option.some.inj front))

/-! ### Words -/

theorem le_foldl_digits (ds : List Nat) (n : Nat) :
    n ≤ ds.foldl (fun n d => 10 * n + d) n := by
  induction ds generalizing n with
  | nil => exact Nat.le_refl _
  | cons d ds ih =>
    have grown := ih (10 * n + d)
    rw [List.foldl_cons]
    omega

/-- No digit is left out of a number that fits in a word. -/
theorem keep_all {ds : List Nat} {n : Nat}
    (fits : ds.foldl (fun n d => 10 * n + d) n ≤ largestWord) :
    keep n ds = (ds.foldl (fun n d => 10 * n + d) n, 0) := by
  induction ds generalizing n with
  | nil => rfl
  | cons d ds ih =>
    rw [List.foldl_cons] at fits ⊢
    rw [keep, if_pos (Nat.le_trans (le_foldl_digits ds _) fits)]
    exact ih fits

theorem keep_digitsOf {n : Nat} (fits : n ≤ largestWord) : keep 0 (digitsOf n) = (n, 0) := by
  have value := valueOf_digitsOf n
  rw [valueOf] at value
  rw [keep_all (by rw [value]; exact fits), value]

/-- Rounding at most doubles a number. -/
theorem toDouble_le (n : Nat) : toDouble n ≤ 2 * n + 1 := by
  have quotient : n / 2 ^ (n.log2 - 52) * 2 ^ (n.log2 - 52) ≤ n := Nat.div_mul_le_self ..
  have unit : 2 ^ (n.log2 - 52) ≤ n + 1 := by
    obtain rfl | nonzero := Nat.eq_zero_or_pos n
    · decide
    · calc 2 ^ (n.log2 - 52) ≤ 2 ^ n.log2 := Nat.pow_le_pow_right (by decide) (Nat.sub_le ..)
        _ ≤ n := Nat.log2_self_le (Nat.ne_of_gt nonzero)
        _ ≤ n + 1 := Nat.le_succ n
  simp only [toDouble, Nat.pow_eq]
  split
  · rw [Nat.succ_mul]
    omega
  · omega

/-- The numeral of a number. -/
def plainNumeral (n : Nat) : Numeral := ⟨false, digitsOf n, [], none⟩

/-- A word is no huge number. -/
theorem isHuge_plainNumeral {n : Nat} (fits : n ≤ largestWord) :
    (plainNumeral n).isHuge = false := by
  have bound : 2 * largestWord + 1 < infinite := by decide +kernel
  have finite : ¬ infinite ≤ toDouble n * toDouble 1 := by
    have rounded := toDouble_le n
    have one : toDouble 1 = 1 := by decide
    rw [one]
    omega
  simp [Numeral.isHuge, plainNumeral, keep_digitsOf fits, keep, largestPower, finite]

/-- It counts what it was written for. -/
theorem count?_plainNumeral (n : UInt64) : (plainNumeral n.toNat).count? = some n := by
  have fits : n.toNat ≤ largestWord := Nat.le_sub_one_of_lt n.toNat_lt
  simp [Numeral.count?, plainNumeral, keep_digitsOf fits, valueOf_digitsOf]

/-! ### Readings -/

namespace Reading

variable {c : Char} {rest : List Char}

theorem accept_other {d : Char} (other : d ≠ c) : accept c (d :: rest) = .ok (false, d :: rest) :=
  if_neg other

/-- Digits up to a character that is none. -/
theorem digits_eq {atEnd : Fault} {ds : List Char} (some : ds ≠ []) (digit : ∀ d ∈ ds, d.isDigit)
    (stop : c.isDigit = false) :
    digits atEnd (ds ++ c :: rest) = .ok (ds.map digitValue, c :: rest) := by
  obtain ⟨d, ds, rfl⟩ := List.exists_cons_of_ne_nil some
  have taken : (d :: ds ++ c :: rest).takeWhile Char.isDigit = d :: ds := by
    rw [List.takeWhile_append_of_pos digit, List.takeWhile_cons_of_neg (by simp [stop]),
      List.append_nil]
  have left : (ds ++ c :: rest).dropWhile Char.isDigit = c :: rest := by
    rw [List.dropWhile_append_of_pos (fun x hx => digit x (List.mem_cons_of_mem d hx)),
      List.dropWhile_cons_of_neg (by simp [stop])]
  rw [List.cons_append, digits, if_pos (digit d List.mem_cons_self), ← List.cons_append, taken,
    left]

/-- A count has a comma behind it. -/
theorem numeral_toDigits (n : Nat) (rest : List Char) :
    numeral .truncated (Nat.toDigits 10 n ++ ',' :: rest) =
      .ok (plainNumeral n, ',' :: rest) := by
  obtain ⟨d, ds, spelled, digit, -⟩ := toDigits_eq_cons n
  have unsigned : accept '-' (Nat.toDigits 10 n ++ ',' :: rest) =
      .ok (false, Nat.toDigits 10 n ++ ',' :: rest) := by
    rw [spelled]
    refine accept_other ?_
    rintro rfl
    exact absurd digit (by decide)
  rw [numeral, bind_eq unsigned, bind_eq (digits_eq Nat.toDigits_ne_nil isDigit_toDigits rfl),
    ← digitsOf, if_neg (not_needless n)]
  rfl

/-- **A count that has been written is read back.** -/
theorem count_toString (n : UInt64) (rest : List Char) :
    count (' ' :: ((toString n).toList ++ ',' :: rest)) = .ok (n, ',' :: rest) := by
  have spelled : (toString n).toList = Nat.toDigits 10 n.toNat := Nat.toList_repr
  have whole := numeral_toDigits n.toNat rest
  have small := isHuge_plainNumeral (Nat.le_sub_one_of_lt n.toNat_lt)
  obtain ⟨d, ds, first, digit, -⟩ := toDigits_eq_cons n.toNat
  have found : front (' ' :: (d :: ds ++ ',' :: rest)) = .ok (d, d :: ds ++ ',' :: rest) :=
    front_eq [' '] rfl (isBlank_of_isDigit digit)
  have number : number (Nat.toDigits 10 n.toNat ++ ',' :: rest) =
      .ok (plainNumeral n.toNat, ',' :: rest) := by
    rw [number, bind_eq whole, small]
    rfl
  rw [spelled]
  rw [first] at number ⊢
  rw [count, bind_eq found, if_pos (by simp [digit]), bind_eq number, count?_plainNumeral]
  rfl

/-! ### Texts -/

theorem text_string (blanks : List Char) (blank : blanks.all isBlank = true) (s : String)
    (rest : List Char) : text (blanks ++ ((string s).toList ++ rest)) = .ok (s, rest) := by
  rw [text, bind_eq (front_string blanks blank s rest), if_pos rfl, quotation_string]

/-- **A text that may be missing is read back.** -/
theorem optionalText_optional (s : Option String) (rest : List Char) :
    optionalText (' ' :: ((Json.optional s).toList ++ rest)) = .ok (s, rest) := by
  cases s with
  | none => rfl
  | some s =>
    have found : front (' ' :: ((string s).toList ++ rest)) =
        .ok ('"', (string s).toList ++ rest) :=
      front_string [' '] rfl s rest
    have whole : text ((string s).toList ++ rest) = .ok (s, rest) := text_string [] rfl s rest
    rw [Json.optional, optionalText, bind_eq found, if_neg (by decide), bind_eq whole, pure_eq]

end Reading

end JackCompiler.Json
