import JackCompiler.Proofs.Lexeme.Spelling
import JackCompiler.Proofs.Text.Encoding
import JackCompiler.Proofs.Text.Places
/-!
# Nothing is lost

The tokens of a source text lie side by side: each begins where the one in front of it ends, and
their texts put together are the source text, up to the place where it is refused. A lexeme ends in a
byte that is a character of its own, or ends with the source text, so that no character is cut and
each lexeme can be read apart from the others.

        l e t │ ␣ │ x │ = │ " é " │ ;          texts of the tokens
        0       3   4   5   6       10         their offsets
-/

namespace JackCompiler

open Utf8 (encode CleanCut)

/-- The text of the lexeme: the value, and that of a string constant between its quotes. -/
def Token.text (t : Token) : String :=
  if t.kind = .stringConstant then "\"" ++ t.value ++ "\"" else t.value

/-- The texts of tokens put together. -/
def textOf (ts : List Token) : String := String.join (ts.map Token.text)

@[simp] theorem textOf_nil : textOf [] = "" := rfl

@[simp] theorem textOf_cons (t : Token) (ts : List Token) :
    textOf (t :: ts) = t.text ++ textOf ts := by
  rw [textOf, List.map_cons, String.join_cons]
  rfl

/-! ### Where lexemes end -/

theorem small_of_isNameRest {b : UInt8} (h : isNameRest b ∨ isSpaceByte b) : b.toNat < 128 := by
  simp only [isNameRest, isNameStart, isDigitByte, isSpaceByte, Bool.or_eq_true, Bool.and_eq_true,
    beq_iff_eq, decide_eq_true_eq, UInt8.le_iff_toNat_le, ← UInt8.toNat_inj] at h
  simp only [UInt8.reduceToNat] at h
  omega

theorem Symbol.small (s : Symbol) : ∀ b ∈ Utf8.bytes s.text, b.toNat < 128 := by
  have all : (Utf8.bytes s.text).all (·.toNat < 128) := by cases s <;> decide
  simpa using all

/-- A lexeme ends in a byte without the highest bit, or is a line comment without its newline. -/
theorem Lexeme.last_small {kind : TokenKind} {w : List UInt8} (h : Lexeme kind w) :
    (∀ b ∈ w.getLast?, b.toNat < 128) ∨
      ∃ body : List UInt8, (∀ b ∈ body, b ≠ Position.newline) ∧ w = 47 :: 47 :: body := by
  have all_small (small : ∀ b ∈ w, b.toNat < 128) : ∀ b ∈ w.getLast?, b.toNat < 128 :=
    fun b hb => small b (List.mem_of_getLast? hb)
  have ends (v : List UInt8) (b : UInt8) (small : b.toNat < 128) (same : w = v ++ [b]) :
      ∀ b ∈ w.getLast?, b.toNat < 128 := by simpa [same] using small
  cases kind with
  | whitespace => exact .inl (all_small fun b hb => small_of_isNameRest (.inr (h.2 b hb)))
  | comment =>
    rcases h with ⟨body, free, same | same⟩ | ⟨body, same, -⟩
    · exact .inr ⟨body, free, same⟩
    · exact .inl (ends (47 :: 47 :: body) 10 (by decide) same)
    · exact .inl (ends (47 :: 42 :: body ++ [42]) 47 (by decide) (by simp [same]))
  | identifier =>
    obtain ⟨b, v, rfl, start, rest⟩ := h
    refine .inl (all_small (List.forall_mem_cons.2 ⟨?_, fun c hc => ?_⟩))
    · exact small_of_isNameRest (.inl (by simp [isNameRest, start]))
    · exact small_of_isNameRest (.inl (rest c hc))
  | integerConstant =>
    exact .inl (all_small fun b hb => small_of_isNameRest (.inl (by simp [isNameRest, h.2 b hb])))
  | stringConstant =>
    obtain ⟨body, -, same⟩ := h
    exact .inl (ends (34 :: body) 34 (by decide) same)
  | keyword k =>
    obtain rfl : w = Utf8.bytes k.text := h
    exact .inl (all_small fun b hb =>
      small_of_isNameRest (.inl (by simp [isNameRest, k.letters b hb])))
  | symbol s =>
    obtain rfl : w = Utf8.bytes s.text := h
    exact .inl (all_small s.small)

/-- No character is cut behind the longest lexeme. -/
theorem LongestLexeme.cut {w behind : List UInt8} {kind : TokenKind}
    (h : LongestLexeme (w ++ behind) w kind) : CleanCut w behind := by
  rcases h.lexeme.last_small with small | ⟨body, free, rfl⟩
  · exact .inl small
  · cases behind with
    | nil => exact .inr (by simp)
    | cons b behind =>
      -- the comment could have been read further
      have more : Lexeme .comment (47 :: 47 :: (body ++ [b])) := .inl (isLineComment_concat free b)
      have longer := h.longest _ _ ⟨behind, by simp⟩ more
      simp only [List.length_cons, List.length_append, List.length_nil] at longer
      omega

/-! ### The text of a token -/

/-- The characters of a string stand between two quotes. -/
theorem IsQuotation.exists_chars {cs : List Char} (h : IsQuotation (encode cs)) :
    ∃ ms, cs = '"' :: (ms ++ ['"']) ∧ ((encode cs).drop 1).dropLast = encode ms := by
  have quote : encode ['"'] = [34] := by decide
  obtain ⟨body, -, same⟩ := h
  have front : CleanCut [34] (body ++ [34]) := .inl (by simp)
  obtain ⟨us, rest, rfl, first, inner⟩ := front.exists_chars same
  obtain rfl := Utf8.encode_injective (first.trans quote.symm)
  have back : CleanCut body [34] := .inr (by simp)
  obtain ⟨ms, vs, rfl, rfl, last⟩ := back.exists_chars inner
  obtain rfl := Utf8.encode_injective (last.trans quote.symm)
  exact ⟨ms, rfl, by rw [same]; simp⟩

/-- The text of a token is the lexeme that spells it. -/
theorem Lexeme.text_eq {kind : TokenKind} {cs : List Char} (h : Lexeme kind (encode cs))
    (span : Span) :
    (Token.mk kind (Scanner.valueOf kind (encode cs)) span).text = String.ofList cs := by
  by_cases string : kind = .stringConstant
  · subst string
    obtain ⟨ms, rfl, inner⟩ := IsQuotation.exists_chars h
    rw [Token.text, if_pos rfl, Scanner.valueOf, if_pos rfl, inner, Utf8.decode_encode]
    simp [← String.toList_inj]
  · rw [Token.text, if_neg string, Scanner.valueOf, if_neg string, Utf8.decode_encode]

/-- Quotes around a value do not matter to any other character. -/
theorem Token.count_text (t : Token) {c : Char} (other : c ≠ '"') :
    t.text.toList.count c = t.value.toList.count c := by
  rw [Token.text]
  split
  · simp [List.count_append, other.symm]
  · rfl

theorem count_textOf (ts : List Token) {c : Char} (other : c ≠ '"') :
    (textOf ts).toList.count c = (ts.flatMap (·.value.toList)).count c := by
  induction ts with
  | nil => rfl
  | cons t ts ih =>
    rw [textOf_cons, String.toList_append, List.count_append, t.count_text other, ih,
      List.flatMap_cons, List.count_append]

/-! ### Side by side -/

/-- The places of a lexeme behind the characters in front of it. -/
def spanBehind (front lexeme : List Char) : Span :=
  ⟨Position.start.advance (encode front),
    Position.start.advance (encode front ++ (encode lexeme).dropLast)⟩

/-- The tokens lie side by side between two places in a text, each told by the characters in front
of it. -/
inductive Tiles : List Char → List Token → List Char → Prop
  | nil (front : List Char) : Tiles front [] front
  | cons {front lexeme back : List Char} {t : Token} {ts : List Token} (nonempty : lexeme ≠ [])
    (text : t.text = String.ofList lexeme)
    (span : t.span = spanBehind front lexeme)
    (rest : Tiles (front ++ lexeme) ts back) : Tiles front (t :: ts) back

namespace Tiles

variable {front back : List Char} {t : Token} {ts before after : List Token}

/-- The texts put together lead from the one place to the other. -/
theorem join (h : Tiles front ts back) : back = front ++ (textOf ts).toList := by
  induction h with
  | nil front => simp
  | cons _ text _ _ ih =>
    rw [ih, textOf_cons, text]
    simp

/-- The tokens behind some of the tokens lie side by side too. -/
theorem behind (h : Tiles front (before ++ after) back) :
    Tiles (front ++ (textOf before).toList) after back := by
  induction before generalizing front with
  | nil => simpa using h
  | cons t before ih =>
    obtain - | ⟨-, text, -, rest⟩ := h
    rw [textOf_cons, text]
    simpa using ih rest

/-- A token begins behind the texts in front of it, and ends at its own last byte. -/
theorem places (h : Tiles [] (before ++ t :: after) back) {source : List Char}
    (inFront : back <+: source) :
    t.text ≠ "" ∧
    t.span.first = Position.locate (encode source) (Utf8.bytes (textOf before)).length ∧
    t.span.last = Position.locate (encode source)
      ((Utf8.bytes (textOf before)).length + (Utf8.bytes t.text).length - 1) ∧
    (Utf8.bytes (textOf before)).length + (Utf8.bytes t.text).length ≤ (encode source).length := by
  obtain - | ⟨nonempty, text, span, rest⟩ := h.behind
  rename_i lexeme
  have upTo : (textOf before).toList ++ lexeme <+: source := by
    refine List.IsPrefix.trans ⟨(textOf after).toList, ?_⟩ inFront
    simpa using rest.join.symm
  have whole := Utf8.encode_front upTo
  rw [Utf8.encode_append, ← Utf8.bytes_eq] at whole
  have some : (encode lexeme).length ≠ 0 := by simpa using nonempty
  have last : Utf8.bytes (textOf before) ++ (encode lexeme).dropLast <+: encode source :=
    ((List.prefix_append_right_inj _).2 (List.dropLast_prefix _)).trans whole
  rw [List.nil_append, spanBehind, ← Utf8.bytes_eq] at span
  rw [span, text, Utf8.bytes_ofList]
  refine ⟨by simpa using nonempty, ?_, ?_, by simpa using whole.length_le⟩
  · exact Position.advance_eq_locate ((List.prefix_append _ _).trans whole)
  · rw [Position.advance_eq_locate last, List.length_append, List.length_dropLast,
      Nat.add_sub_assoc (Nat.one_le_iff_ne_zero.2 some)]

end Tiles

namespace Scanner

variable {s rest : Scanner} {front behind : List Char} {e : CompileError}

/-- The scanner stands between characters of a source text. -/
structure StandsAt (s : Scanner) (front behind : List Char) : Prop where
  roster : s.roster = Automaton.standard.map Automaton.reset
  going : s.refused = false
  unread : s.unread = encode behind
  position : s.position = Position.start.advance (encode front)

/-- An error is about what is not read yet. -/
theorem error_of_next? (h : s.next? = some (.error e, rest)) :
    ∃ fragment, e = .unrecognizedInput fragment (some s.position) := by
  unfold next? at h
  split at h
  · cases h
  · dsimp only at h
    split at h
    · cases h
    · cases h
      exact ⟨_, rfl⟩

/-- A scanner at the end yields nothing. Elsewhere it refuses what is in front of it, or takes some
characters and stands behind them. -/
theorem StandsAt.next?_cases (h : s.StandsAt front behind) :
    (behind = [] ∧ s.next? = none) ∨
    (behind ≠ [] ∧ ∃ fragment rest,
      s.next? = some (.error (.unrecognizedInput fragment (some s.position)), rest)) ∨
    ∃ lexeme behind' t rest, lexeme ≠ [] ∧ behind = lexeme ++ behind' ∧
      s.next? = some (.ok t, rest) ∧ rest.StandsAt (front ++ lexeme) behind' ∧
      t.text = String.ofList lexeme ∧ t.span = spanBehind front lexeme := by
  by_cases done : s.unread = []
  · refine .inl ⟨?_, by simp [next?, done]⟩
    exact Utf8.encode_injective (h.unread.symm.trans done)
  · obtain ⟨fails, takes⟩ := munch ⟨h.roster, h.going, done⟩
    by_cases excused : NoLexeme s.unread ∨ OpenBlockComment s.unread
    · obtain ⟨e, rest, found⟩ := fails.2 excused
      obtain ⟨fragment, rfl⟩ := error_of_next? found
      refine .inr (.inl ⟨?_, fragment, rest, found⟩)
      rintro rfl
      exact done h.unread
    · obtain ⟨w, v, kind, same, longest, found⟩ := takes excused
      rw [same] at longest
      obtain ⟨lexeme, behind', rfl, rfl, rfl⟩ := longest.cut.exists_chars (h.unread.symm.trans same)
      refine .inr (.inr ⟨lexeme, behind', _, _, ?_, rfl, found, ⟨h.roster, h.going, rfl, ?_⟩,
        longest.lexeme.text_eq _, ?_⟩)
      · rintro rfl
        exact longest.lexeme.ne_nil rfl
      · simp [h.position]
      · simp [h.position, spanBehind]

/-- The tokens found before come in front of those that a scanner yields. -/
theorem runFor_done (rounds : Nat) (s : Scanner) (done : List Token) :
    runFor rounds s done =
      { runFor rounds s [] with tokens := done.reverse ++ (runFor rounds s []).tokens } := by
  induction rounds generalizing s done with
  | zero => simp [runFor]
  | succ rounds ih =>
    rw [runFor, runFor]
    split
    · simp
    · simp
    · next t rest _ =>
      rw [ih rest (t :: done), ih rest [t]]
      simp

/-- The tokens lie side by side up to the end of the text, or up to the place of the error. -/
theorem StandsAt.runFor_tiles (h : s.StandsAt front behind) {rounds : Nat}
    (enough : s.unread.length ≤ rounds) :
    ∃ back remainder, front ++ behind = back ++ remainder ∧
      Tiles front (runFor rounds s []).tokens back ∧
      (remainder = [] ∧ (runFor rounds s []).error = none ∨
        remainder ≠ [] ∧ ∃ fragment, (runFor rounds s []).error =
          some (.unrecognizedInput fragment (some (Position.start.advance (encode back))))) := by
  induction rounds generalizing s front behind with
  | zero =>
    have := List.length_eq_zero_iff.1 (Nat.le_zero.1 enough)
    obtain rfl := Utf8.encode_eq_nil.1 (h.unread.symm.trans this)
    exact ⟨front, [], rfl, .nil front, .inl ⟨rfl, rfl⟩⟩
  | succ rounds ih =>
    rw [runFor]
    rcases h.next?_cases with ⟨rfl, found⟩ | ⟨more, fragment, rest, found⟩ |
      ⟨lexeme, behind', t, rest, nonempty, rfl, found, stands, text, span⟩
    · rw [found]
      exact ⟨front, [], rfl, .nil front, .inl ⟨rfl, rfl⟩⟩
    · rw [found, h.position]
      exact ⟨front, behind, rfl, .nil front, .inr ⟨more, fragment, rfl⟩⟩
    · rw [found]
      have shorter : rest.unread.length ≤ rounds := by
        have := List.length_pos_iff.2 (mt Utf8.encode_eq_nil.1 nonempty)
        rw [h.unread, Utf8.encode_append, List.length_append] at enough
        rw [stands.unread]
        omega
      obtain ⟨back, remainder, same, tiles, ended⟩ := ih stands shorter
      dsimp only
      rw [runFor_done]
      exact ⟨back, remainder, by rw [← same, List.append_assoc], .cons nonempty text span tiles,
        ended⟩

theorem ofSource_standsAt (source : String) : (ofSource source).StandsAt [] source.toList :=
  ⟨rfl, rfl, Utf8.bytes_eq source, rfl⟩

/-- The tokens of a source text lie side by side from its front. -/
theorem run_tiles (source : String) :
    ∃ back remainder, source.toList = back ++ remainder ∧
      Tiles [] (ofSource source).run.tokens back ∧
      (remainder = [] ∧ (ofSource source).run.error = none ∨
        remainder ≠ [] ∧ ∃ fragment, (ofSource source).run.error =
          some (.unrecognizedInput fragment (some (Position.start.advance (encode back))))) :=
  (ofSource_standsAt source).runFor_tiles le_rfl

/-- Tokens begin and end at bytes of the source text. -/
theorem tokens_within {source : String} {t : Token} (h : t ∈ (ofSource source).run.tokens) :
    t.span.first.Within (Utf8.bytes source) ∧ t.span.last.Within (Utf8.bytes source) := by
  obtain ⟨back, remainder, same, tiles, -⟩ := run_tiles source
  obtain ⟨before, after, split⟩ := List.append_of_mem h
  rw [split] at tiles
  obtain ⟨-, first, last, bound⟩ := tiles.places ⟨remainder, same.symm⟩
  rw [Utf8.bytes_eq source, first, last]
  exact ⟨Position.locate_within (by omega), Position.locate_within (by omega)⟩

/-- An error is about a byte of the source text. -/
theorem error_within {source : String} {e : CompileError}
    (h : (ofSource source).run.error = some e) :
    e.kind = .lexical ∧ ∃ p, e.position = some p ∧ p.Within (Utf8.bytes source) := by
  obtain ⟨back, remainder, same, -, ⟨-, none⟩ | ⟨-, fragment, found⟩⟩ := run_tiles source
  · rw [none] at h
    cases h
  · rw [found] at h
    cases h
    have inFront : encode back <+: encode source.toList := Utf8.encode_front ⟨remainder, same.symm⟩
    refine ⟨rfl, _, rfl, ?_⟩
    rw [Position.advance_eq_locate inFront, Utf8.bytes_eq]
    exact Position.locate_within inFront.length_le

/-- **The tokens are the source text, each at its place.** Their texts, none of them empty, put
together are the source text, or the front of it up to the byte that the error tells. The values have
no replacement character that the source text has not. Each token begins at the byte where the texts in
front of it end, and ends at its own last byte; lines and columns are those of these bytes. -/
theorem run_lossless (source : String) :
    (∃ remainder, source = textOf (ofSource source).run.tokens ++ remainder ∧
      (remainder = "" ∧ (ofSource source).run.error = none ∨
        remainder ≠ "" ∧ ∃ fragment, (ofSource source).run.error =
          some (.unrecognizedInput fragment (some (Position.locate (Utf8.bytes source)
            (Utf8.bytes (textOf (ofSource source).run.tokens)).length))))) ∧
    ((ofSource source).run.tokens.flatMap (·.value.toList)).count Utf8.replacement ≤
      source.toList.count Utf8.replacement ∧
    ∀ before t after, (ofSource source).run.tokens = before ++ t :: after →
      t.text ≠ "" ∧
      t.span.first = Position.locate (Utf8.bytes source) (Utf8.bytes (textOf before)).length ∧
      t.span.last = Position.locate (Utf8.bytes source)
        ((Utf8.bytes (textOf before)).length + (Utf8.bytes t.text).length - 1) := by
  obtain ⟨back, remainder, same, tiles, ended⟩ := run_tiles source
  obtain rfl : back = (textOf (ofSource source).run.tokens).toList := tiles.join
  have inFront := List.prefix_append (textOf (ofSource source).run.tokens).toList remainder
  rw [← same] at inFront
  refine ⟨⟨String.ofList remainder, by simp [← String.toList_inj, same], ?_⟩, ?_, ?_⟩
  · rcases ended with ⟨rfl, finished⟩ | ⟨more, fragment, refused⟩
    · exact .inl ⟨rfl, finished⟩
    refine .inr ⟨by simpa using more, fragment, ?_⟩
    rw [refused, Position.advance_eq_locate (Utf8.encode_front inFront), ← Utf8.bytes_eq,
      ← Utf8.bytes_eq]
  · rw [← count_textOf _ (by decide)]
    exact inFront.sublist.count_le _
  · intro before t after split
    rw [split] at tiles inFront
    obtain ⟨nonempty, first, last, -⟩ := tiles.places inFront
    rw [Utf8.bytes_eq source]
    exact ⟨nonempty, first, last⟩

end Scanner

end JackCompiler
