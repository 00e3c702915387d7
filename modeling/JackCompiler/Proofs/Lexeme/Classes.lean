import JackCompiler.Lexeme.Automaton
import Mathlib.Data.List.Infix
/-!
# The classes of lexemes

What a lexeme is, said without automata. A comment with a newline behind it takes the newline, one
between slashes and stars ends at the first star and slash, and a string ends on its line.

        blanks   // to the end of the line   /* to the first */   name   number   "string"   spelling
-/

namespace JackCompiler

/-! ### Lexemes -/

/-- Blanks, at least one. -/
def IsBlankRun (w : List UInt8) : Prop := w ≠ [] ∧ ∀ b ∈ w, isSpaceByte b

/-- Two slashes and the rest of the line, with the newline behind it or without. -/
def IsLineComment (w : List UInt8) : Prop :=
  ∃ body : List UInt8, (∀ b ∈ body, b ≠ Position.newline) ∧
    (w = 47 :: 47 :: body ∨ w = 47 :: 47 :: body ++ [Position.newline])

/-- A slash and a star, and all up to the first star and slash behind them. -/
def IsBlockComment (w : List UInt8) : Prop :=
  ∃ body : List UInt8, w = 47 :: 42 :: body ++ [42, 47] ∧ ¬ [42, 47] <:+: body ++ [42]

/-- A letter or underscore, and letters, digits and underscores. -/
def IsName (w : List UInt8) : Prop :=
  ∃ first rest, w = first :: rest ∧ isNameStart first ∧ ∀ b ∈ rest, isNameRest b

/-- Digits, at least one. -/
def IsNumber (w : List UInt8) : Prop := w ≠ [] ∧ ∀ b ∈ w, isDigitByte b

/-- Two quotes, and neither quotes nor newlines between them. -/
def IsQuotation (w : List UInt8) : Prop :=
  ∃ body : List UInt8, (∀ b ∈ body, b ≠ 34 ∧ b ≠ Position.newline) ∧ w = 34 :: body ++ [34]

/-- The bytes are a lexeme of the class with this kind. -/
def Lexeme : TokenKind → List UInt8 → Prop
  | .whitespace, w => IsBlankRun w
  | .comment, w => IsLineComment w ∨ IsBlockComment w
  | .identifier, w => IsName w
  | .integerConstant, w => IsNumber w
  | .stringConstant, w => IsQuotation w
  | .keyword k, w => w = Utf8.bytes k.text
  | .symbol s, w => w = Utf8.bytes s.text

/-- A quote, and neither quotes nor newlines behind it. -/
def OpenQuotation (w : List UInt8) : Prop :=
  ∃ body : List UInt8, (∀ b ∈ body, b ≠ 34 ∧ b ≠ Position.newline) ∧ w = 34 :: body

/-- A slash and a star, and no star and slash behind them. -/
def OpenBlockComment (w : List UInt8) : Prop :=
  ∃ body : List UInt8, w = 47 :: 42 :: body ∧ ¬ [42, 47] <:+: body

/-! ### Up to a byte that ends -/

/-- Bytes of a sort, and the byte behind them that ends them. -/
def UpTo (inside : UInt8 → Prop) (stop : UInt8) (w : List UInt8) : Prop :=
  ∃ body : List UInt8, (∀ b ∈ body, inside b) ∧ w = body ++ [stop]

section

variable {inside : UInt8 → Prop} {stop b : UInt8} {w : List UInt8}

theorem not_upTo_nil : ¬ UpTo inside stop [] := by
  rintro ⟨body, -, same⟩
  simp at same

theorem upTo_cons (h : inside b) (other : b ≠ stop) :
    UpTo inside stop (b :: w) ↔ UpTo inside stop w := by
  constructor
  · rintro ⟨body, all, same⟩
    cases body with
    | nil => exact absurd (List.cons.inj same).1 other
    | cons c body => exact ⟨body, fun x hx => all x (.tail _ hx), (List.cons.inj same).2⟩
  · rintro ⟨body, all, rfl⟩
    exact ⟨b :: body, List.forall_mem_cons.2 ⟨h, all⟩, rfl⟩

theorem upTo_stop (h : ¬ inside stop) : UpTo inside stop (stop :: w) ↔ w = [] := by
  constructor
  · rintro ⟨body, all, same⟩
    cases body with
    | nil => exact (List.cons.inj same).2
    | cons c body =>
      obtain ⟨rfl, -⟩ := List.cons.inj same
      exact absurd (all _ (.head _)) h
  · rintro rfl
    exact ⟨[], by simp, rfl⟩

theorem not_upTo_cons (h : ¬ inside b) (other : b ≠ stop) : ¬ UpTo inside stop (b :: w) := by
  rintro ⟨body, all, same⟩
  cases body with
  | nil => exact other (List.cons.inj same).1
  | cons c body =>
    obtain ⟨rfl, -⟩ := List.cons.inj same
    exact h (all _ (.head _))

end

/-! ### Up to the first star and slash -/

/-- Bytes up to the first star and slash. -/
def UpToStarSlash (w : List UInt8) : Prop :=
  ∃ body : List UInt8, w = body ++ [42, 47] ∧ ¬ [42, 47] <:+: body ++ [42]

/-- A byte opens a star and slash if it is a star, and a slash is behind it. -/
theorem starSlash_infix_cons {b : UInt8} {w : List UInt8} (h : ¬ (b = 42 ∧ w.head? = some 47)) :
    [42, 47] <:+: b :: w ↔ [42, 47] <:+: w := by
  rw [List.infix_cons_iff]
  refine or_iff_right ?_
  rintro ⟨v, same⟩
  obtain ⟨rfl, rfl⟩ := List.cons.inj same
  exact h ⟨rfl, rfl⟩

theorem upToStarSlash_cons {b : UInt8} {w : List UInt8} (h : ¬ (b = 42 ∧ w.head? = some 47)) :
    UpToStarSlash (b :: w) ↔ UpToStarSlash w := by
  have same_head (body : List UInt8) : (body ++ [42]).head? = (body ++ [42, 47]).head? := by
    cases body <;> rfl
  constructor
  · rintro ⟨body, same, first⟩
    cases body with
    | nil =>
      obtain ⟨rfl, rfl⟩ := List.cons.inj same
      exact absurd ⟨rfl, rfl⟩ h
    | cons c body =>
      obtain ⟨rfl, rfl⟩ := List.cons.inj same
      refine ⟨body, rfl, ?_⟩
      rwa [List.cons_append, starSlash_infix_cons (by rwa [same_head])] at first
  · rintro ⟨body, rfl, first⟩
    refine ⟨b :: body, rfl, ?_⟩
    rwa [List.cons_append, starSlash_infix_cons (by rwa [same_head])]

theorem upToStarSlash_close {w : List UInt8} : UpToStarSlash (42 :: 47 :: w) ↔ w = [] := by
  constructor
  · rintro ⟨body, same, first⟩
    match body with
    | [] => exact (List.cons.inj (List.cons.inj same).2).2
    | [c] =>
      obtain ⟨-, same⟩ := List.cons.inj same
      cases same
    | c :: d :: body =>
      obtain ⟨star, same⟩ := List.cons.inj same
      obtain ⟨slash, -⟩ := List.cons.inj same
      exact absurd ⟨[], body ++ [42], by rw [← star, ← slash]; rfl⟩ first
  · rintro rfl
    exact ⟨[], rfl, by decide⟩

theorem not_upToStarSlash_nil : ¬ UpToStarSlash [] := by
  rintro ⟨body, same, -⟩
  simp at same

theorem not_upToStarSlash_star : ¬ UpToStarSlash [42] := by
  rintro ⟨body, same, -⟩
  have := congrArg List.length same
  simp at this

/-! ### First bytes -/

/-- The first bytes of the lexemes of a kind. -/
def TokenKind.OpensWith : TokenKind → UInt8 → Prop
  | .whitespace, b => isSpaceByte b
  | .comment, b => b = 47
  | .identifier, b | .keyword _, b => isNameStart b
  | .integerConstant, b => isDigitByte b
  | .stringConstant, b => b = 34
  | .symbol _, b => ¬ isSpaceByte b ∧ ¬ isNameStart b ∧ ¬ isDigitByte b ∧ b ≠ 34

/-- The spelling of a reserved word has no byte that could not open a name. -/
theorem Keyword.letters (k : Keyword) : ∀ b ∈ Utf8.bytes k.text, isNameStart b := by
  have all : (Utf8.bytes k.text).all isNameStart := by cases k <;> decide
  exact List.all_eq_true.1 all

/-- The spelling of a symbol is one byte. -/
theorem Symbol.spelling_eq (s : Symbol) :
    ∃ b, Utf8.bytes s.text = [b] ∧ (TokenKind.symbol s).OpensWith b := by
  cases s <;> exact ⟨_, rfl, by rw [TokenKind.OpensWith]; decide⟩

theorem Lexeme.first {kind : TokenKind} {w : List UInt8} (h : Lexeme kind w) :
    ∃ b v, w = b :: v ∧ kind.OpensWith b := by
  cases kind with
  | whitespace =>
    obtain ⟨some, all⟩ := h
    obtain ⟨b, v, rfl⟩ := List.exists_cons_of_ne_nil some
    exact ⟨b, v, rfl, all b (.head v)⟩
  | comment =>
    rcases h with ⟨body, -, rfl | rfl⟩ | ⟨body, rfl, -⟩ <;> exact ⟨_, _, rfl, rfl⟩
  | identifier =>
    obtain ⟨b, v, rfl, start, -⟩ := h
    exact ⟨b, v, rfl, start⟩
  | integerConstant =>
    obtain ⟨some, all⟩ := h
    obtain ⟨b, v, rfl⟩ := List.exists_cons_of_ne_nil some
    exact ⟨b, v, rfl, all b (.head v)⟩
  | stringConstant =>
    obtain ⟨body, -, rfl⟩ := h
    exact ⟨_, _, rfl, rfl⟩
  | keyword k =>
    have spelled : w = Utf8.bytes k.text := h
    cases w with
    | nil => cases k <;> cases spelled
    | cons b v => exact ⟨b, v, rfl, k.letters b (by simp [← spelled])⟩
  | symbol s =>
    obtain ⟨b, spelling, opens⟩ := s.spelling_eq
    exact ⟨b, [], h.trans spelling, opens⟩

/-- No lexeme is empty. -/
theorem Lexeme.ne_nil {kind : TokenKind} {w : List UInt8} (h : Lexeme kind w) : w ≠ [] := by
  obtain ⟨b, v, rfl, -⟩ := h.first
  exact List.cons_ne_nil b v

/-- A string without its second quote is no lexeme. -/
theorem OpenQuotation.not_lexeme {kind : TokenKind} {w : List UInt8} (h : OpenQuotation w) :
    ¬ Lexeme kind w := by
  intro lexeme
  obtain ⟨body, all, rfl⟩ := h
  obtain ⟨b, v, same, opens⟩ := lexeme.first
  obtain ⟨rfl, -⟩ := List.cons.inj same
  cases kind with
  | stringConstant =>
    obtain ⟨inner, -, same⟩ := lexeme
    obtain rfl := (List.cons.inj same).2
    exact (all 34 (by simp)).1 rfl
  | symbol s => exact opens.2.2.2 rfl
  | _ => exact absurd opens (by rw [TokenKind.OpensWith]; decide)

/-- What a string without its second quote begins with is another, or nothing. -/
theorem OpenQuotation.not_lexeme_prefix {kind : TokenKind} {w v : List UInt8}
    (h : OpenQuotation (w ++ v)) : ¬ Lexeme kind w := by
  intro lexeme
  obtain ⟨body, all, same⟩ := h
  obtain ⟨b, inner, rfl⟩ := List.exists_cons_of_ne_nil lexeme.ne_nil
  obtain ⟨rfl, rfl⟩ := List.cons.inj same
  have opened : OpenQuotation (34 :: inner) := ⟨inner, fun c hc => all c (by simp [hc]), rfl⟩
  exact opened.not_lexeme lexeme

/-- A comment without its star and slash is no lexeme. -/
theorem OpenBlockComment.not_lexeme {kind : TokenKind} {w : List UInt8} (h : OpenBlockComment w) :
    ¬ Lexeme kind w := by
  intro lexeme
  obtain ⟨body, rfl, opened⟩ := h
  obtain ⟨b, v, same, opens⟩ := lexeme.first
  obtain ⟨rfl, -⟩ := List.cons.inj same
  cases kind with
  | comment =>
    rcases lexeme with ⟨line, -, same | same⟩ | ⟨block, same, -⟩
    · cases same
    · cases same
    · obtain rfl := (List.cons.inj (List.cons.inj same).2).2
      exact opened ⟨block, [], List.append_nil _⟩
  | symbol s =>
    obtain ⟨b, spelling, -⟩ := s.spelling_eq
    rw [Lexeme, spelling] at lexeme
    cases lexeme
  | _ => exact absurd opens (by rw [TokenKind.OpensWith]; decide)

/-- With one more byte, a comment without its newline is a comment still. -/
theorem isLineComment_concat {body : List UInt8} (free : ∀ b ∈ body, b ≠ Position.newline)
    (b : UInt8) : IsLineComment (47 :: 47 :: (body ++ [b])) := by
  by_cases line : b = Position.newline
  · exact ⟨body, free, .inr (by rw [line]; rfl)⟩
  · refine ⟨body ++ [b], fun c hc => ?_, .inl rfl⟩
    rcases List.mem_append.1 hc with inside | last
    · exact free c inside
    · rwa [List.mem_singleton.1 last]

/-- With one more byte, a comment without its star and slash has them or is another. -/
theorem OpenBlockComment.concat {w : List UInt8} (h : OpenBlockComment w) (b : UInt8) :
    IsBlockComment (w ++ [b]) ∨ OpenBlockComment (w ++ [b]) := by
  obtain ⟨body, rfl, opened⟩ := h
  by_cases closes : [42, 47] <:+: body ++ [b]
  · rcases List.infix_concat_iff.1 closes with ⟨v, same⟩ | before
    · have same : (v ++ [42]) ++ [47] = body ++ [b] := by rw [List.append_assoc]; exact same
      obtain ⟨rfl, star⟩ := List.append_inj' same rfl
      obtain rfl := (List.cons.inj star).1
      exact .inl ⟨v, by simp, opened⟩
    · exact absurd before opened
  · exact .inr ⟨body ++ [b], rfl, closes⟩

/-! ### Which classes share a lexeme -/

theorem Keyword.spelling_injective {k k' : Keyword}
    (h : Utf8.bytes k.text = Utf8.bytes k'.text) : k = k' := by
  have all : ∀ k ∈ all, ∀ k' ∈ all, Utf8.bytes k.text = Utf8.bytes k'.text → k = k' := by
    decide +kernel
  exact all k k.mem_all k' k'.mem_all h

theorem Symbol.spelling_injective {s s' : Symbol}
    (h : Utf8.bytes s.text = Utf8.bytes s'.text) : s = s' := by
  have all : ∀ s ∈ all, ∀ s' ∈ all, Utf8.bytes s.text = Utf8.bytes s'.text → s = s' := by
    decide +kernel
  exact all s s.mem_all s' s'.mem_all h

/-- Blanks and digits open no names. -/
theorem not_isNameStart {b : UInt8} (h : isSpaceByte b ∨ isDigitByte b) : ¬ isNameStart b := by
  simp only [isSpaceByte, isDigitByte, isNameStart, Bool.or_eq_true, Bool.and_eq_true, beq_iff_eq,
    decide_eq_true_eq, UInt8.le_iff_toNat_le, ← UInt8.toNat_inj] at h ⊢
  simp only [UInt8.reduceToNat] at h ⊢
  omega

/-- A name is an identifier, and may be a reserved word, but nothing else. -/
theorem Lexeme.of_isName {kind : TokenKind} {w : List UInt8} (h : Lexeme kind w) (name : IsName w) :
    kind = .identifier ∨ ∃ k, kind = .keyword k := by
  obtain ⟨b, v, rfl, start, -⟩ := name
  obtain ⟨_, _, same, opens⟩ := h.first
  obtain ⟨rfl, -⟩ := List.cons.inj same
  cases kind with
  | identifier => exact .inl rfl
  | keyword k => exact .inr ⟨k, rfl⟩
  | symbol s => exact absurd start opens.2.1
  | integerConstant => exact absurd start (not_isNameStart (.inr opens))
  | whitespace => exact absurd start (not_isNameStart (.inl opens))
  | comment =>
    obtain rfl : b = 47 := opens
    cases start
  | stringConstant =>
    obtain rfl : b = 34 := opens
    cases start

/-- No string is a number. -/
theorem IsQuotation.not_isNumber {w : List UInt8} (h : IsQuotation w) : ¬ IsNumber w := by
  rintro ⟨-, all⟩
  obtain ⟨body, -, rfl⟩ := h
  exact absurd (all 34 (.head _)) (by decide)

/-- Of the kinds that fit a lexeme no two have one rank. -/
theorem Lexeme.eq_of_rank {kind kind' : TokenKind} {w : List UInt8} (h : Lexeme kind w)
    (h' : Lexeme kind' w) (same : kind.rank = kind'.rank) : kind = kind' := by
  cases kind <;> cases kind' <;> simp only [TokenKind.rank, reduceCtorEq, Nat.reduceEqDiff] at same ⊢
  · exact h'.not_isNumber h
  · exact h.not_isNumber h'
  · exact congrArg _ (Keyword.spelling_injective (h.symm.trans h'))
  · exact congrArg _ (Symbol.spelling_injective (h.symm.trans h'))

end JackCompiler
