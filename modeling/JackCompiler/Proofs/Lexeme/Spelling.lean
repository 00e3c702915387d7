import JackCompiler.Proofs.Lexeme.MaximalMunch
import JackCompiler.Proofs.Text.Digits
import JackCompiler.Proofs.Text.Encoding
/-!
# The spelling of tokens

Every token that the scanner yields is spelled by a lexeme of its kind. So a token with the kind of
numbers is a run of digits, which reading the bytes as text leaves as they are.

        lexeme   48 … 57 bytes   ──decode──▶   '0' … '9' characters
-/

namespace JackCompiler

/-! ### Bytes that are characters -/

namespace Utf8

theorem Decoder.step_ascii {d : Decoder} {b : UInt8} (h : b.toNat < 128)
    (whole : d.unfinished = none) : d.step b = d.push (Char.ofNat b.toNat) := by
  rw [step, whole]
  exact if_pos h

theorem foldl_ascii {w : List UInt8} (h : ∀ b ∈ w, b.toNat < 128) (text : List Char) :
    w.foldl Decoder.step ⟨text, none⟩ =
      ⟨(w.map (Char.ofNat ·.toNat)).reverse ++ text, none⟩ := by
  induction w generalizing text with
  | nil => rfl
  | cons b w ih =>
    obtain ⟨small, rest⟩ := List.forall_mem_cons.1 h
    rw [List.foldl_cons, Decoder.step_ascii small rfl, Decoder.push, ih rest]
    simp

/-- Bytes without the highest bit are one character each. -/
theorem decode_ascii {w : List UInt8} (h : ∀ b ∈ w, b.toNat < 128) :
    decode w = w.map (Char.ofNat ·.toNat) := by
  rw [decode, foldl_ascii h, Decoder.finish]
  simp

end Utf8

/-! ### Tokens and lexemes -/

/-- A lexeme spells the token. -/
def Token.Spelled (t : Token) : Prop :=
  ∃ w, Lexeme t.kind w ∧ t.value = Scanner.valueOf t.kind w

theorem isDigitByte_iff {b : UInt8} : isDigitByte b ↔ 48 ≤ b.toNat ∧ b.toNat ≤ 57 := by
  simp [isDigitByte, UInt8.le_iff_toNat_le]

theorem isDigit_ofNat {n : Nat} (h : 48 ≤ n ∧ n ≤ 57) : (Char.ofNat n).isDigit := by
  have all : ∀ n < 58, 48 ≤ n → (Char.ofNat n).isDigit := by decide
  exact all n (Nat.lt_succ_of_le h.2) h.1

/-- A digit is written as the byte of a digit. -/
theorem isDigitByte_of_isDigit {c : Char} (h : c.isDigit) :
    ∀ b ∈ String.utf8EncodeChar c, isDigitByte b := by
  have bounds : 48 ≤ c.toNat ∧ c.toNat ≤ 57 := by
    simpa [Char.isDigit, UInt32.le_iff_toNat_le] using h
  have all : ∀ n < 58, 48 ≤ n → ∀ b ∈ String.utf8EncodeChar (Char.ofNat n), isDigitByte b := by
    decide +kernel
  have bytes := all c.toNat (by omega) bounds.1
  rwa [Char.ofNat_toNat] at bytes

/-- A run of digits is the lexeme of a number. -/
theorem IsDigits.isNumber {s : String} (h : IsDigits s) : IsNumber (Utf8.bytes s) := by
  rw [Utf8.bytes_eq]
  constructor
  · rw [ne_eq, Utf8.encode_eq_nil, String.toList_eq_nil_iff]
    exact h.1
  · intro b hb
    obtain ⟨c, hc, inside⟩ := List.mem_flatMap.1 hb
    exact isDigitByte_of_isDigit (h.2 c hc) b inside

/-- The token of a number is a run of digits. -/
theorem Token.Spelled.isDigits {t : Token} (h : t.Spelled) (number : t.kind = .integerConstant) :
    IsDigits t.value := by
  obtain ⟨w, lexeme, value⟩ := h
  rw [number] at lexeme value
  obtain ⟨nonempty, digits⟩ := lexeme
  have ascii : ∀ b ∈ w, b.toNat < 128 := fun b hb => by
    have := (isDigitByte_iff.1 (digits b hb)).2
    omega
  have chars : t.value.toList = w.map (Char.ofNat ·.toNat) := by
    rw [value, Scanner.valueOf, if_neg (by simp), Utf8.decode_ascii ascii, String.toList_ofList]
  refine ⟨fun empty => nonempty ?_, ?_⟩
  · rw [empty] at chars
    exact List.map_eq_nil_iff.1 chars.symm
  · rw [chars, List.forall_mem_map]
    exact fun b hb => isDigit_ofNat (isDigitByte_iff.1 (digits b hb))

namespace Scanner

variable {s rest : Scanner} {t : Token}

theorem ready_of_next? (roster : s.roster = Automaton.standard.map Automaton.reset)
    (h : s.next? = some (.ok t, rest)) : s.Ready := by
  rw [next?] at h
  split at h
  · cases h
  · next going =>
    simp only [Bool.or_eq_true, not_or, Bool.not_eq_true, List.isEmpty_eq_false_iff] at going
    exact ⟨roster, going.1, going.2⟩

/-- A lexeme spells the token that is found, and the roster stays. -/
theorem next?_spelled (roster : s.roster = Automaton.standard.map Automaton.reset)
    (h : s.next? = some (.ok t, rest)) :
    t.Spelled ∧ rest.roster = Automaton.standard.map Automaton.reset := by
  obtain ⟨fails, takes⟩ := munch (ready_of_next? roster h)
  by_cases excused : NoLexeme s.unread ∨ OpenBlockComment s.unread
  · obtain ⟨e, rest', refused⟩ := fails.2 excused
    rw [h] at refused
    cases refused
  · obtain ⟨w, behind, kind, -, longest, found⟩ := takes excused
    rw [h] at found
    cases found
    exact ⟨⟨w, longest.lexeme, rfl⟩, roster⟩

theorem runFor_spelled {rounds : Nat} {done : List Token}
    (roster : s.roster = Automaton.standard.map Automaton.reset) (spelled : ∀ t ∈ done, t.Spelled) :
    ∀ t ∈ (runFor rounds s done).tokens, t.Spelled := by
  induction rounds generalizing s done with
  | zero => simpa [runFor] using spelled
  | succ rounds ih =>
    rw [runFor]
    split
    · simpa using spelled
    · simpa using spelled
    · next t rest found =>
      obtain ⟨first, again⟩ := next?_spelled roster found
      exact ih again (List.forall_mem_cons.2 ⟨first, spelled⟩)

/-- **Every token of a source text is spelled by a lexeme of its kind.** -/
theorem tokens_spelled (source : String) : ∀ t ∈ (ofSource source).run.tokens, t.Spelled :=
  runFor_spelled rfl (by simp)

end Scanner

end JackCompiler
