import JackCompiler.Proofs.Lexeme.Lookahead
import JackCompiler.Proofs.Text.Truncation
/-!
# The values of tokens

What can be the value of a token of a text that is read to its end. An identifier is a name and no
reserved word: its characters are letters, digits and underscores, and it is no numeral. The value
of a string has no quote.

        total   x_1   iff        identifiers
        if   1x   a.b            a reserved word, a digit in front, a dot
-/

namespace JackCompiler

/-! ### Identifiers -/

/-- The text is a name and no reserved word. -/
structure IsIdentifier (s : String) : Prop where
  name : IsName (Utf8.bytes s)
  free : ∀ k : Keyword, s ≠ k.text

namespace IsIdentifier

variable {s : String}

theorem nonempty (h : IsIdentifier s) : s ≠ "" := by
  rintro rfl
  obtain ⟨first, rest, same, -⟩ := h.name
  cases same

/-- No other character of ASCII is in an identifier than those of names. -/
theorem notMem (h : IsIdentifier s) {b : UInt8} (small : b.toNat < 128)
    (other : isNameRest b = false) : Char.ofNat b.toNat ∉ s.toList := by
  rw [← Utf8.mem_encode small, ← Utf8.bytes_eq]
  obtain ⟨first, rest, same, start, behind⟩ := h.name
  rw [same]
  intro member
  rcases List.mem_cons.1 member with rfl | member
  · simp [isNameRest, start] at other
  · rw [behind b member] at other
    cases other

theorem not_isDigits (h : IsIdentifier s) : ¬ IsDigits s := by
  intro digits
  have number : Lexeme .integerConstant (Utf8.bytes s) := digits.isNumber
  rcases number.of_isName h.name with same | ⟨k, same⟩ <;> cases same

theorem not_isNumeral (h : IsIdentifier s) (n : UInt16) : ¬ IsNumeral s n := by
  rintro ⟨digits, isDigits, -, rfl | rfl⟩
  · exact h.not_isDigits isDigits
  · exact h.notMem (b := 43) (by decide) (by decide) (by simp)

end IsIdentifier

/-! ### Tokens -/

/-- What a text is cut into are whole pieces of it. -/
theorem Cut.whole {ps : List Piece} (h : Cut ps) : ∀ p ∈ ps, ∃ v, p.Whole v := by
  induction ps with
  | nil => exact List.forall_mem_nil _
  | cons p ps ih => exact List.forall_mem_cons.2 ⟨⟨_, h.1⟩, ih h.2⟩

namespace Piece.Whole

variable {t : Token} {v : List UInt8}

/-- A name is an identifier only if it is no reserved word, as these have a higher rank. -/
theorem isIdentifier (h : t.piece.Whole v) (kind : t.kind = .identifier) :
    IsIdentifier t.value := by
  have text : t.text = t.value := by rw [Token.text, if_neg (by simp [kind])]
  have name := h.lexeme
  simp only [Token.piece, kind, text] at name
  refine ⟨name, fun k same => ?_⟩
  have reserved : Lexeme (.keyword k) t.piece.lexeme := by
    rw [Token.piece, text, same]
    rfl
  have below := h.highest _ reserved (by simp [Token.piece, kind])
  simp [Token.piece, kind, TokenKind.rank] at below

theorem unquoted (h : t.piece.Whole v) (kind : t.kind = .stringConstant) :
    '"' ∉ t.value.toList := by
  have text : t.text = "\"" ++ t.value ++ "\"" := by rw [Token.text, if_pos kind]
  have quote : Utf8.bytes "\"" = [34] := by decide
  have string := h.lexeme
  simp only [Token.piece, kind, text, Utf8.bytes_append, quote] at string
  obtain ⟨body, inside, same⟩ := string
  have value : Utf8.bytes t.value = body := by simpa using same
  rw [Utf8.bytes_eq] at value
  intro member
  have byte : (34 : UInt8) ∈ Utf8.encode t.value.toList := (Utf8.mem_encode (by decide)).2 member
  rw [value] at byte
  exact (inside 34 byte).1 rfl

end Piece.Whole

/-- **The tokens of a text that is read to its end** are identifiers that are names and no reserved
words, strings without quotes, and tokens of other kinds. -/
theorem Scanner.values_of_tokenize {source : String} {tokens : List Token}
    (h : tokenize source = .ok tokens) :
    ∀ t ∈ tokens, (t.kind = .identifier → IsIdentifier t.value) ∧
      (t.kind = .stringConstant → '"' ∉ t.value.toList) := by
  intro t member
  obtain ⟨v, whole⟩ := (cut_of_tokenize h).2.whole t.piece (List.mem_map_of_mem member)
  exact ⟨whole.isIdentifier, whole.unquoted⟩

end JackCompiler
