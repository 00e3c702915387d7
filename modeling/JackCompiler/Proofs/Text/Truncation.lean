import JackCompiler.Proofs.Text.Encoding
/-!
# Texts cut by their bytes

The first bytes of a text, however many, are read as the characters that fit into them whole, and a
character that the cut goes through is read as one replacement. A byte below 128 stands among the
bytes of a text just where its character stands in the text.

        #     é     é          first four bytes
        23  C3 A9  C3 │ A9     #  é  U+FFFD
-/

namespace JackCompiler.Utf8

/-! ### Bytes that are characters -/

/-- A byte without the highest bit is among those of its own character only. -/
theorem mem_encodeChar {b : UInt8} (small : b.toNat < 128) {c : Char} :
    b ∈ String.utf8EncodeChar c ↔ c = Char.ofNat b.toNat := by
  constructor
  · intro member
    rcases encodeChar_cases c with ⟨one, same⟩ | ⟨-, -, same⟩ | ⟨-, -, same⟩ | ⟨-, -, same⟩
    · rw [same, List.mem_singleton] at member
      rw [member, UInt8.toNat_ofNat_of_lt' (Nat.lt_trans one (by decide)), Char.ofNat_toNat]
    all_goals
      have high := (encodeChar_high c).resolve_left (by simp [same])
      exact absurd (high b member) (Nat.not_le_of_lt small)
  · rintro rfl
    have value : (Char.ofNat b.toNat).toNat = b.toNat := by
      have all : ∀ n < 128, (Char.ofNat n).toNat = n := by decide
      exact all b.toNat small
    rcases encodeChar_cases (Char.ofNat b.toNat) with ⟨-, same⟩ | ⟨least, -⟩ | ⟨least, -⟩ |
      ⟨least, -⟩
    · rw [same, value, UInt8.ofNat_toNat]
      exact List.mem_singleton.2 rfl
    all_goals omega

theorem mem_encode {b : UInt8} (small : b.toNat < 128) {cs : List Char} :
    b ∈ encode cs ↔ Char.ofNat b.toNat ∈ cs := by
  simp [encode, mem_encodeChar small]

/-- The bytes up to one without the highest bit are those of the characters up to its own. -/
theorem takeWhile_encode {b : UInt8} (small : b.toNat < 128) (cs : List Char) :
    (encode cs).takeWhile (· ≠ b) = encode (cs.takeWhile (· ≠ Char.ofNat b.toNat)) := by
  induction cs with
  | nil => rfl
  | cons c cs ih =>
    rw [encode_cons]
    by_cases same : c = Char.ofNat b.toNat
    · rw [List.takeWhile_cons_of_neg (by simpa using same)]
      have single : String.utf8EncodeChar c = [b] := by
        have member := (mem_encodeChar small).2 same
        rcases encodeChar_high c with ⟨b', one⟩ | high
        · rw [one, List.mem_singleton] at member
          rw [one, member]
        · exact absurd (high b member) (Nat.not_le_of_lt small)
      rw [single, List.singleton_append, List.takeWhile_cons_of_neg (by simp)]
      rfl
    · rw [List.takeWhile_cons_of_pos (by simpa using same), encode_cons, ← ih,
        List.takeWhile_append_of_pos]
      intro b' member
      simp only [ne_eq, decide_eq_true_eq]
      rintro rfl
      exact same ((mem_encodeChar small).1 member)

/-! ### The characters that fit -/

/-- The characters in front whose bytes are no more than these. -/
def fitting : Nat → List Char → List Char
  | _, [] => []
  | n, c :: cs =>
    if (String.utf8EncodeChar c).length ≤ n then
      c :: fitting (n - (String.utf8EncodeChar c).length) cs
    else []

/-- The text is cut inside a character. -/
def Splits (n : Nat) (cs : List Char) : Prop :=
  fitting n cs ≠ cs ∧ (encode (fitting n cs)).length < n

instance (n : Nat) (cs : List Char) : Decidable (Splits n cs) :=
  inferInstanceAs (Decidable (_ ∧ _))

section

variable {n : Nat} {c : Char} {cs : List Char}

theorem fitting_cons_of_le (h : (String.utf8EncodeChar c).length ≤ n) :
    fitting n (c :: cs) = c :: fitting (n - (String.utf8EncodeChar c).length) cs := if_pos h

theorem fitting_cons_of_lt (h : n < (String.utf8EncodeChar c).length) :
    fitting n (c :: cs) = [] := if_neg (Nat.not_le_of_lt h)

theorem fitting_front (n : Nat) (cs : List Char) : fitting n cs <+: cs := by
  induction cs generalizing n with
  | nil => exact List.prefix_rfl
  | cons c cs ih =>
    by_cases fits : (String.utf8EncodeChar c).length ≤ n
    · rw [fitting_cons_of_le fits]
      exact (List.prefix_cons_inj c).2 (ih _)
    · rw [fitting_cons_of_lt (Nat.lt_of_not_le fits)]
      exact List.nil_prefix

theorem length_encode_fitting_le (n : Nat) (cs : List Char) :
    (encode (fitting n cs)).length ≤ n := by
  induction cs generalizing n with
  | nil => exact Nat.zero_le n
  | cons c cs ih =>
    by_cases fits : (String.utf8EncodeChar c).length ≤ n
    · rw [fitting_cons_of_le fits, encode_cons, List.length_append]
      have := ih (n - (String.utf8EncodeChar c).length)
      omega
    · rw [fitting_cons_of_lt (Nat.lt_of_not_le fits)]
      exact Nat.zero_le n

theorem splits_cons_of_le (h : (String.utf8EncodeChar c).length ≤ n) :
    Splits n (c :: cs) ↔ Splits (n - (String.utf8EncodeChar c).length) cs := by
  rw [Splits, Splits, fitting_cons_of_le h, encode_cons, List.length_append, ne_eq,
    List.cons.injEq, and_iff_right rfl]
  refine and_congr_right fun _ => ?_
  omega

theorem splits_cons_of_lt (h : n < (String.utf8EncodeChar c).length) :
    Splits n (c :: cs) ↔ 0 < n := by
  rw [Splits, fitting_cons_of_lt h]
  exact and_iff_right (List.cons_ne_nil c cs).symm

/-- No text has more characters than bytes. -/
theorem length_le_encode (cs : List Char) : cs.length ≤ (encode cs).length := by
  induction cs with
  | nil => exact Nat.le_refl 0
  | cons c cs ih =>
    have := String.length_utf8EncodeChar c ▸ c.utf8Size_pos
    rw [encode_cons, List.length_append, List.length_cons]
    omega

end

/-! ### Reading what is cut -/

/-- The first bytes of a character, but not all, are a character under way. -/
theorem Decoder.foldl_part (text : List Char) {c : Char} {x y : List UInt8}
    (same : String.utf8EncodeChar c = x ++ y) (begun : x ≠ []) (more : y ≠ []) :
    ∃ u, x.foldl step ⟨text, none⟩ = ⟨text, some u⟩ := by
  have front : x <+: (String.utf8EncodeChar c).dropLast := by
    rw [same, List.dropLast_append_of_ne_nil more]
    exact List.prefix_append x _
  have valid := valid_toNat c
  rcases encodeChar_cases c with ⟨one, chars⟩ | ⟨least, two, chars⟩ | ⟨least, three, chars⟩ |
    ⟨least, four, chars⟩ <;> rw [chars] at front <;>
    simp only [List.dropLast_cons_cons, List.dropLast_singleton, List.prefix_cons_iff,
      List.prefix_nil, begun, false_or] at front
  · obtain ⟨-, rfl, rfl⟩ := front
    rw [List.foldl_cons, step_lead (by omega), lead_two (by omega)]
    exact ⟨_, rfl⟩
  · obtain ⟨-, rfl, rfl | ⟨-, rfl, rfl⟩⟩ := front
    · rw [List.foldl_cons, step_lead (by omega), lead_three (by omega)]
      exact ⟨_, rfl⟩
    · rw [List.foldl_cons, step_lead (by omega), lead_three (by omega), List.foldl_cons,
        step_more (by split <;> split <;> omega) (by omega) (by omega)]
      exact ⟨_, rfl⟩
  · obtain ⟨-, rfl, rfl | ⟨-, rfl, rfl | ⟨-, rfl, rfl⟩⟩⟩ := front
    · rw [List.foldl_cons, step_lead (by omega), lead_four (by omega)]
      exact ⟨_, rfl⟩
    · rw [List.foldl_cons, step_lead (by omega), lead_four (by omega), List.foldl_cons,
        step_more (by split <;> split <;> omega) (by omega) (by omega)]
      exact ⟨_, rfl⟩
    · rw [List.foldl_cons, step_lead (by omega), lead_four (by omega), List.foldl_cons,
        step_more (by split <;> split <;> omega) (by omega) (by omega), List.foldl_cons,
        step_more (by omega) (by omega) (by omega)]
      exact ⟨_, rfl⟩

/-- A character that breaks off at the end is read as one replacement. -/
theorem decode_part (us : List Char) {c : Char} {x y : List UInt8}
    (same : String.utf8EncodeChar c = x ++ y) (begun : x ≠ []) (more : y ≠ []) :
    decode (encode us ++ x) = us ++ [replacement] := by
  rw [decode, List.foldl_append, Decoder.foldl_encode]
  obtain ⟨u, underway⟩ := Decoder.foldl_part (us.reverse ++ []) same begun more
  rw [underway, Decoder.finish]
  simp

/-- **The first bytes of a text are read as the characters that fit**, and as one replacement for a
character that is cut. -/
theorem decode_take (us cs : List Char) (n : Nat) :
    decode (encode us ++ (encode cs).take n) =
      us ++ fitting n cs ++ if Splits n cs then [replacement] else [] := by
  induction cs generalizing us n with
  | nil => simp [fitting, Splits]
  | cons c cs ih =>
    rw [encode_cons, List.take_append]
    by_cases fits : (String.utf8EncodeChar c).length ≤ n
    · rw [List.take_of_length_le fits, fitting_cons_of_le fits]
      simp only [splits_cons_of_le fits]
      have longer : encode us ++ String.utf8EncodeChar c = encode (us ++ [c]) := by simp
      rw [← List.append_assoc, longer, ih]
      simp
    · have cut := Nat.lt_of_not_le fits
      rw [fitting_cons_of_lt cut, Nat.sub_eq_zero_of_le cut.le, List.take_zero, List.append_nil,
        List.append_nil]
      simp only [splits_cons_of_lt cut]
      split
      · next some =>
        refine decode_part us (List.take_append_drop n _).symm ?_ ?_
        · intro none
          rcases List.take_eq_nil_iff.1 none with rfl | empty
          · exact Nat.lt_irrefl 0 some
          · rw [empty] at cut
            cases cut
        · rwa [ne_eq, List.drop_eq_nil_iff]
      · next none =>
        obtain rfl := Nat.eq_zero_of_not_pos none
        rw [List.take_zero, List.append_nil, List.append_nil, decode_encode]

end JackCompiler.Utf8
