import JackCompiler.Text.Decoding
import Mathlib.Data.List.Infix
/-!
# Characters and their bytes

Reading the bytes of characters gives the characters back. And bytes that are cut can be read part by
part where the cut is between characters. It is if a byte beside it is a character of its own, as no
such byte is part of a longer one.

        é        ;        \n
        C3  A9 │ 3B     │ 0A        beside each cut a byte without the highest bit
-/

namespace JackCompiler.Utf8

/-- The bytes of characters. -/
def encode (cs : List Char) : List UInt8 := cs.flatMap String.utf8EncodeChar

@[simp] theorem encode_nil : encode [] = [] := rfl

@[simp] theorem encode_cons (c : Char) (cs : List Char) :
    encode (c :: cs) = String.utf8EncodeChar c ++ encode cs := rfl

@[simp] theorem encode_append (cs ds : List Char) : encode (cs ++ ds) = encode cs ++ encode ds :=
  List.flatMap_append

theorem encode_front {cs ds : List Char} (h : cs <+: ds) : encode cs <+: encode ds := by
  obtain ⟨rest, rfl⟩ := h
  exact ⟨encode rest, (encode_append cs rest).symm⟩

@[simp] theorem bytes_ofList (cs : List Char) : bytes (String.ofList cs) = encode cs := by
  simp [bytes, encode, List.utf8Encode]

/-- The bytes of a text are those of its characters. -/
theorem bytes_eq (s : String) : bytes s = encode s.toList := by
  rw [← bytes_ofList, String.ofList_toList]

/-- The bytes of a character: one without the highest bit, or two to four with it. -/
theorem encodeChar_cases (c : Char) :
    (c.toNat < 0x80 ∧ String.utf8EncodeChar c = [UInt8.ofNat c.toNat]) ∨
    (0x80 ≤ c.toNat ∧ c.toNat < 0x800 ∧ String.utf8EncodeChar c =
      [UInt8.ofNat (c.toNat / 64 + 192), UInt8.ofNat (c.toNat % 64 + 128)]) ∨
    (0x800 ≤ c.toNat ∧ c.toNat < 0x10000 ∧ String.utf8EncodeChar c =
      [UInt8.ofNat (c.toNat / 4096 + 224), UInt8.ofNat (c.toNat / 64 % 64 + 128),
        UInt8.ofNat (c.toNat % 64 + 128)]) ∨
    (0x10000 ≤ c.toNat ∧ c.toNat < 0x110000 ∧ String.utf8EncodeChar c =
      [UInt8.ofNat (c.toNat / 262144 + 240), UInt8.ofNat (c.toNat / 4096 % 64 + 128),
        UInt8.ofNat (c.toNat / 64 % 64 + 128), UInt8.ofNat (c.toNat % 64 + 128)]) := by
  have valid := c.valid
  change c.toNat.isValidChar at valid
  have top : c.toNat < 0x110000 := by
    unfold Nat.isValidChar at valid
    omega
  have same : c.val.toNat = c.toNat := rfl
  unfold String.utf8EncodeChar
  simp only [same]
  split
  · exact .inl ⟨by omega, rfl⟩
  · split
    · exact .inr (.inl ⟨by omega, by omega, by rw [Nat.mod_eq_of_lt (by omega)]⟩)
    · split
      · exact .inr (.inr (.inl ⟨by omega, by omega, by
          rw [Nat.mod_eq_of_lt (show c.toNat / 4096 < 16 by omega)]⟩))
      · exact .inr (.inr (.inr ⟨by omega, top, by
          rw [Nat.mod_eq_of_lt (show c.toNat / 262144 < 8 by omega)]⟩))

/-- No character is a surrogate. -/
theorem valid_toNat (c : Char) : c.toNat < 0xD800 ∨ 0xE000 ≤ c.toNat := by
  have := c.valid
  change c.toNat.isValidChar at this
  unfold Nat.isValidChar at this
  omega

/-! ### Reading back -/

namespace Decoder

variable {d : Decoder} {text : List Char} {n bits due low high : Nat}

/-- Between characters, a byte is the first of one. -/
theorem step_lead (small : n < 256) :
    step ⟨text, none⟩ (UInt8.ofNat n) = lead ⟨text, none⟩ n := by
  have value : (UInt8.ofNat n).toNat = n := by simp; omega
  simp only [step, value]

/-- The first byte of two. -/
theorem lead_two (h : 0xC2 ≤ n ∧ n < 0xE0) :
    d.lead n = ⟨d.text, some ⟨n - 0xC0, 1, 0x80, 0xBF⟩⟩ := by
  rw [lead, if_neg (by omega), if_neg (by omega), if_pos h.2]

/-- The first byte of three. -/
theorem lead_three (h : 0xE0 ≤ n ∧ n < 0xF0) :
    d.lead n = ⟨d.text, some ⟨n - 0xE0, 2, if n = 0xE0 then 0xA0 else 0x80,
      if n = 0xED then 0x9F else 0xBF⟩⟩ := by
  rw [lead, if_neg (by omega), if_neg (by omega), if_neg (by omega)]
  by_cases least : n = 0xE0
  · subst least; rfl
  · by_cases surrogate : n = 0xED
    · subst surrogate; rfl
    · simp [least, surrogate, h.2]

/-- The first byte of four. -/
theorem lead_four (h : 0xF0 ≤ n ∧ n ≤ 0xF4) :
    d.lead n = ⟨d.text, some ⟨n - 0xF0, 3, if n = 0xF0 then 0x90 else 0x80,
      if n = 0xF4 then 0x8F else 0xBF⟩⟩ := by
  obtain rfl | rfl | rfl | rfl | rfl : n = 0xF0 ∨ n = 0xF1 ∨ n = 0xF2 ∨ n = 0xF3 ∨ n = 0xF4 := by
    omega
  all_goals rfl

/-- A byte in the middle of a character. -/
theorem step_more (range : low ≤ n + 128 ∧ n + 128 ≤ high) (six : n < 64) (more : 1 < due) :
    (⟨text, some ⟨bits, due, low, high⟩⟩ : Decoder).step (UInt8.ofNat (n + 128)) =
      ⟨text, some ⟨bits * 64 + n, due - 1, 0x80, 0xBF⟩⟩ := by
  have value : (UInt8.ofNat (n + 128)).toNat = n + 128 := by simp; omega
  simp only [step, value, if_pos range, Nat.add_sub_cancel]
  exact if_neg (by omega)

/-- The last byte of a character. -/
theorem step_last (range : low ≤ n + 128 ∧ n + 128 ≤ high) (six : n < 64) (last : due ≤ 1) :
    (⟨text, some ⟨bits, due, low, high⟩⟩ : Decoder).step (UInt8.ofNat (n + 128)) =
      ⟨Char.ofNat (bits * 64 + n) :: text, none⟩ := by
  have value : (UInt8.ofNat (n + 128)).toNat = n + 128 := by simp; omega
  simp only [step, value, if_pos range, Nat.add_sub_cancel]
  exact if_pos last

/-- The bytes of a character are read as that character. -/
theorem foldl_encodeChar (text : List Char) (c : Char) :
    (String.utf8EncodeChar c).foldl step ⟨text, none⟩ = ⟨c :: text, none⟩ := by
  have valid := valid_toNat c
  rcases encodeChar_cases c with ⟨one, same⟩ | ⟨least, two, same⟩ | ⟨least, three, same⟩ |
    ⟨least, four, same⟩
  · rw [same, List.foldl_cons, step_lead (by omega), lead, if_pos one, push, Char.ofNat_toNat]
    rfl
  · rw [same, List.foldl_cons, step_lead (by omega), lead_two (by omega), List.foldl_cons,
      step_last (by omega) (by omega) (by omega)]
    rw [show (c.toNat / 64 + 192 - 0xC0) * 64 + c.toNat % 64 = c.toNat by omega, Char.ofNat_toNat]
    rfl
  · rw [same, List.foldl_cons, step_lead (by omega), lead_three (by omega), List.foldl_cons,
      step_more (by split <;> split <;> omega) (by omega) (by omega), List.foldl_cons,
      step_last (by omega) (by omega) (by omega)]
    rw [show ((c.toNat / 4096 + 224 - 0xE0) * 64 + c.toNat / 64 % 64) * 64 + c.toNat % 64 =
      c.toNat by omega, Char.ofNat_toNat]
    rfl
  · rw [same, List.foldl_cons, step_lead (by omega), lead_four (by omega), List.foldl_cons,
      step_more (by split <;> split <;> omega) (by omega) (by omega), List.foldl_cons,
      step_more (by omega) (by omega) (by omega), List.foldl_cons,
      step_last (by omega) (by omega) (by omega)]
    rw [show (((c.toNat / 262144 + 240 - 0xF0) * 64 + c.toNat / 4096 % 64) * 64 +
      c.toNat / 64 % 64) * 64 + c.toNat % 64 = c.toNat by omega, Char.ofNat_toNat]
    rfl

theorem foldl_encode (text cs : List Char) :
    (encode cs).foldl step ⟨text, none⟩ = ⟨cs.reverse ++ text, none⟩ := by
  induction cs generalizing text with
  | nil => rfl
  | cons c cs ih => simp [foldl_encodeChar, ih]

end Decoder

/-- The bytes of characters are read as those characters. -/
@[simp] theorem decode_encode (cs : List Char) : decode (encode cs) = cs := by
  simp [decode, Decoder.foldl_encode, Decoder.finish]

theorem encode_injective : Function.Injective encode := fun cs ds h => by
  rw [← decode_encode cs, h, decode_encode]

/-- A text is cut into characters in one way where its bytes are cut in one place. -/
theorem append_inj_of_length {us vs us' vs' : List Char} (same : us ++ vs = us' ++ vs')
    (length : (encode us).length = (encode us').length) : us = us' ∧ vs = vs' := by
  have bytes : encode us ++ encode vs = encode us' ++ encode vs' := by
    rw [← encode_append, same, encode_append]
  obtain ⟨front, behind⟩ := List.append_inj bytes length
  exact ⟨encode_injective front, encode_injective behind⟩

theorem bytes_append (s s' : String) : bytes (s ++ s') = bytes s ++ bytes s' := by
  rw [bytes_eq, bytes_eq, bytes_eq, String.toList_append, encode_append]

theorem bytes_injective : Function.Injective bytes := fun s s' h => by
  rw [bytes_eq, bytes_eq] at h
  exact String.toList_inj.1 (encode_injective h)

@[simp] theorem encode_eq_nil {cs : List Char} : encode cs = [] ↔ cs = [] :=
  ⟨fun h => encode_injective h, fun h => by rw [h, encode_nil]⟩

/-! ### Cuts -/

/-- The byte in front of the cut or the one behind it is a character of its own, or there is none. -/
def CleanCut (x y : List UInt8) : Prop :=
  (∀ b ∈ x.getLast?, b.toNat < 128) ∨ ∀ b ∈ y.head?, b.toNat < 128

/-- The bytes of a character have the highest bit, or it is a single byte. -/
theorem encodeChar_high (c : Char) :
    (∃ b, String.utf8EncodeChar c = [b]) ∨ ∀ b ∈ String.utf8EncodeChar c, 128 ≤ b.toNat := by
  rcases encodeChar_cases c with ⟨-, same⟩ | ⟨-, bound, same⟩ | ⟨-, bound, same⟩ | ⟨-, bound, same⟩
  · exact .inl ⟨_, same⟩
  all_goals
    rw [same]
    refine .inr ?_
    simp only [List.forall_mem_cons, List.not_mem_nil, false_imp_iff, forall_const, and_true,
      UInt8.toNat_ofNat']
    omega

/-- No clean cut is inside a character. -/
theorem CleanCut.encodeChar {c : Char} {x y z : List UInt8} (cut : CleanCut x (y ++ z))
    (same : String.utf8EncodeChar c = x ++ y) : x = [] ∨ y = [] := by
  by_contra inside
  obtain ⟨some, more⟩ := not_or.1 inside
  have long : ¬ ∃ b, String.utf8EncodeChar c = [b] := by
    rintro ⟨b, one⟩
    rw [one] at same
    have := congrArg List.length same
    simp only [List.length_singleton, List.length_append] at this
    have := List.length_pos_iff.2 some
    have := List.length_pos_iff.2 more
    omega
  have high := (encodeChar_high c).resolve_left long
  rw [same] at high
  rcases cut with low | low
  · have := low _ (List.getLast?_eq_getLast_of_ne_nil some)
    have := high _ (List.mem_append_left y (List.getLast_mem some))
    omega
  · obtain ⟨b, y', rfl⟩ := List.exists_cons_of_ne_nil more
    have := low b (by simp)
    have := high b (by simp)
    omega

/-- A clean cut through the bytes of characters is between two of them. -/
theorem CleanCut.exists_chars {cs : List Char} {x y : List UInt8} (cut : CleanCut x y)
    (same : encode cs = x ++ y) : ∃ us vs, cs = us ++ vs ∧ encode us = x ∧ encode vs = y := by
  induction cs generalizing x with
  | nil =>
    obtain ⟨rfl, rfl⟩ := List.append_eq_nil_iff.1 same.symm
    exact ⟨[], [], rfl, rfl, rfl⟩
  | cons c cs ih =>
    rw [encode_cons] at same
    rcases List.append_eq_append_iff.1 same with ⟨x', rfl, rest⟩ | ⟨y', char, rfl⟩
    · have cut' : CleanCut x' y := by
        refine cut.imp_left fun low b hb => low b ?_
        rw [Option.mem_def] at hb ⊢
        rw [List.getLast?_append, hb]
        rfl
      obtain ⟨us, vs, rfl, rfl, rfl⟩ := ih cut' rest
      exact ⟨c :: us, vs, rfl, rfl, rfl⟩
    · rcases cut.encodeChar char with rfl | rfl
      · exact ⟨[], c :: cs, rfl, rfl, by rw [encode_cons, char]; rfl⟩
      · exact ⟨[c], cs, rfl, by rw [encode_cons, char]; simp, rfl⟩

end JackCompiler.Utf8
