import JackCompiler.Proofs.Lexeme.Lookahead
import JackCompiler.Proofs.Text.Truncation
import Mathlib.Data.List.DropRight
/-!
# What an error quotes

A text is refused at the first byte of a round, and the error quotes what the round has read and up
to eleven bytes of the line behind it. A round fails between two characters. But the eleventh byte
may be inside of one, and then a replacement stands for it that the text has not.

        # ␣ y ; \n        quoted: # ␣ y ;
        😀  😀  😀         quoted: 😀  😀  U+FFFD        the third has four bytes, and three are left
-/

namespace JackCompiler

open Utf8 (encode CleanCut fitting Splits replacement)

/-! ### Blanks at the end -/

theorem trimEnd_front (cs : List Char) : trimEnd cs <+: cs := List.rdropWhile_prefix isBlank cs

theorem trimEnd_concat (cs : List Char) {c : Char} (h : isBlank c = false) :
    trimEnd (cs ++ [c]) = cs ++ [c] :=
  List.rdropWhile_concat_neg isBlank cs c (by simp [h])

/-! ### Where a round fails -/

/-- A quote and what goes on with the string. -/
theorem OpenQuotation.concat {w : List UInt8} (h : OpenQuotation w) {b : UInt8}
    (other : b ≠ 34 ∧ b ≠ Position.newline) : OpenQuotation (w ++ [b]) := by
  obtain ⟨body, all, rfl⟩ := h
  refine ⟨body ++ [b], fun c hc => ?_, rfl⟩
  rcases List.mem_append.1 hc with inside | last
  · exact all c inside
  · rwa [List.mem_singleton.1 last]

namespace Scanner

variable {s rest : Scanner} {w v : List UInt8} {front behind : List Char} {e : CompileError}

/-- A round that fails cuts no character. -/
theorem Covers.cut (covers : s.Covers w) (ready : s.Ready) (none : ∀ kind, ¬ Lexeme kind w)
    (same : s.unread = w ++ v) : CleanCut w v := by
  by_cases empty : w = []
  · exact .inl (by simp [empty])
  obtain ⟨a, member, takes⟩ := covers.alive empty
  rw [ready.roster] at member
  rcases (begun_iff empty).2 ⟨a, member, takes⟩ with ⟨kind, lexeme⟩ | quoted | opened
  · exact absurd lexeme (none kind)
  · refine .inr fun b head => ?_
    obtain ⟨v, rfl⟩ : ∃ v', v = b :: v' := List.head?_eq_some_iff.1 head
    by_contra high
    -- only a quote and a newline are no more of the string
    have other : b ≠ 34 ∧ b ≠ Position.newline := by
      refine ⟨?_, ?_⟩ <;> rintro rfl <;> exact high (by decide)
    refine covers.stops same ?_
    rw [ready.roster]
    exact (quoted.concat other).taken
  · have whole := covers.unread_eq ready opened
    obtain rfl : v = [] := List.append_right_eq_self.1 (same.symm.trans whole.symm)
    exact .inr (by simp)

/-- An error is about the characters that the round has read. -/
theorem StandsAt.refused (h : s.StandsAt front behind) (found : s.next? = some (.error e, rest)) :
    ∃ read more, behind = read ++ more ∧ s.round.length = (encode read).length ∧
      e = .unrecognizedInput (s.fragment s.round.length) (some s.position) := by
  have ready : s.Ready := by
    refine ⟨h.roster, h.going, fun done => ?_⟩
    simp [next?, done] at found
  obtain ⟨w, covers⟩ := s.exists_covers
  obtain ⟨v, same⟩ := covers.inFront
  rcases covers.winner ready with ⟨none, lost⟩ | ⟨kind, -, won, -⟩
  · have cut := covers.cut ready none same.symm
    obtain ⟨read, more, rfl, rfl, -⟩ := cut.exists_chars (h.unread.symm.trans same.symm)
    rw [next?_refused ready lost] at found
    cases found
    exact ⟨read, more, rfl, by rw [covers.round], rfl⟩
  · rw [next?_taken ready covers same.symm won] at found
    cases found

/-- An error of a run is that of one of its rounds. -/
theorem StandsAt.runFor_refused (h : s.StandsAt front behind) {rounds : Nat}
    (refused : (runFor rounds s []).error = some e) :
    ∃ (s' rest : Scanner) (back remainder : List Char), front ++ behind = back ++ remainder ∧
      s'.StandsAt back remainder ∧ s'.next? = some (.error e, rest) := by
  induction rounds generalizing s front behind with
  | zero => cases refused
  | succ rounds ih =>
    rw [runFor] at refused
    rcases h.next?_cases with ⟨-, found⟩ | ⟨-, fragment, rest, found⟩ |
      ⟨lexeme, behind', t, rest, -, rfl, found, stands, -, -⟩
    · rw [found] at refused
      cases refused
    · rw [found] at refused
      cases refused
      exact ⟨s, rest, front, behind, rfl, h, found⟩
    · rw [found] at refused
      dsimp only at refused
      rw [runFor_done] at refused
      rw [← List.append_assoc]
      exact ih stands refused

/-- A scanner between characters of a source text is the one that stands at their bytes. -/
theorem StandsAt.eq_standingAt {source : String} (h : s.StandsAt front behind)
    (same : source.toList = front ++ behind) : s = standingAt source (encode front).length := by
  have bytes : Utf8.bytes source = encode front ++ encode behind := by
    rw [Utf8.bytes_eq, same, Utf8.encode_append]
  obtain ⟨roster, unread, position, refused⟩ := s
  obtain ⟨rfl, rfl, rfl, rfl⟩ := h
  rw [standingAt, bytes, List.drop_left, List.take_left]
  rfl

/-! ### What is quoted -/

/-- The characters up to the end of the line. -/
def restOfLine (cs : List Char) : List Char := cs.takeWhile (· ≠ '\n')

/-- What the round has read and the characters of the line behind it that fit into the context, or a
replacement for the one that does not. -/
def quotation (read behind : List Char) : List Char :=
  trimEnd (read ++ fitting (contextLength + 1) (restOfLine behind) ++
    if Splits (contextLength + 1) (restOfLine behind) then [replacement] else [])

theorem StandsAt.fragment_eq {read more : List Char} (h : s.StandsAt front (read ++ more)) :
    s.fragment (encode read).length = String.ofList (quotation read more) := by
  have newline := Utf8.takeWhile_encode (b := Position.newline) (by decide) more
  rw [fragment, h.unread, Utf8.encode_append, List.take_left, List.drop_left]
  simp only [← List.take_takeWhile, newline, Utf8.decode_take]
  rfl

/-- The error quotes the text: what the round at its place has read, and behind it up to eleven
characters of the same line, without blanks at the end. -/
def QuotesSource (source : String) (e : CompileError) : Prop :=
  ∃ front read more behind : List Char, source.toList = front ++ (read ++ (more ++ behind)) ∧
    e.position = some (Position.locate (Utf8.bytes source) (encode front).length) ∧
    (standingAt source (encode front).length).round.length = (encode read).length ∧
    more.length ≤ contextLength + 1 ∧ '\n' ∉ more ∧
    e.found = some (String.ofList (trimEnd (read ++ more)))

variable {read more : List Char}

/-- Characters of the line that are in front of others. -/
theorem front_restOfLine (line : '\n' ∉ more) (front : more <+: behind) :
    more <+: restOfLine behind := by
  obtain ⟨rest, rfl⟩ := front
  rw [restOfLine, List.takeWhile_append_of_pos]
  · exact List.prefix_append more _
  · intro c member
    simpa using ne_of_mem_of_not_mem member line

/-- Without a cut the quotation is the text. -/
theorem quotation_whole (whole : ¬ Splits (contextLength + 1) (restOfLine behind)) :
    quotation read behind = trimEnd (read ++ fitting (contextLength + 1) (restOfLine behind)) := by
  rw [quotation, if_neg whole, List.append_nil]

/-- With a cut the quotation ends in the replacement. -/
theorem quotation_cut (cut : Splits (contextLength + 1) (restOfLine behind)) :
    quotation read behind =
      read ++ fitting (contextLength + 1) (restOfLine behind) ++ [replacement] := by
  rw [quotation, if_pos cut, trimEnd_concat _ (by decide)]

/-- The quotation is in the text if the line is not cut inside a character, or if what is cut is a
replacement itself. -/
theorem quotation_eq_iff (read behind : List Char) :
    (∃ more, more <+: restOfLine behind ∧ more.length ≤ contextLength + 1 ∧
      quotation read behind = trimEnd (read ++ more)) ↔
    (Splits (contextLength + 1) (restOfLine behind) →
      fitting (contextLength + 1) (restOfLine behind) ++ [replacement] <+: restOfLine behind) := by
  have bound := Utf8.length_encode_fitting_le (contextLength + 1) (restOfLine behind)
  have chars := Utf8.length_le_encode (fitting (contextLength + 1) (restOfLine behind))
  constructor
  · rintro ⟨more, front, -, same⟩ cut
    rw [quotation_cut cut, List.append_assoc] at same
    have inside := trimEnd_front (read ++ more)
    rw [← same, List.prefix_append_right_inj] at inside
    exact inside.trans front
  · intro replaced
    by_cases cut : Splits (contextLength + 1) (restOfLine behind)
    · refine ⟨_, replaced cut, ?_, ?_⟩
      · have := cut.2
        rw [List.length_append, List.length_singleton]
        omega
      · rw [quotation_cut cut, ← List.append_assoc, trimEnd_concat _ (by decide)]
    · exact ⟨_, Utf8.fitting_front _ _, chars.trans bound, quotation_whole cut⟩

/-- **An error quotes the text up to the character that is cut.** The text found is what the failed
round has read and the characters behind it, in the same line, that fit into eleven bytes, without
blanks at the end; where the eleven bytes end inside a character a replacement stands for it. So it
is a piece of the text just where no character is cut, or where the one that is cut is a
replacement. -/
theorem run_quotes {source : String} (refused : (ofSource source).run.error = some e) :
    ∃ front read behind : List Char, source.toList = front ++ (read ++ behind) ∧
      (standingAt source (encode front).length).round.length = (encode read).length ∧
      e = .unrecognizedInput (String.ofList (quotation read behind))
        (some (Position.locate (Utf8.bytes source) (encode front).length)) ∧
      (QuotesSource source e ↔ (Splits (contextLength + 1) (restOfLine behind) →
        fitting (contextLength + 1) (restOfLine behind) ++ [replacement] <+:
          restOfLine behind)) := by
  obtain ⟨s, rest, front, remainder, same, stands, found⟩ :=
    (ofSource_standsAt source).runFor_refused refused
  rw [List.nil_append] at same
  obtain ⟨read, behind, rfl, round, rfl⟩ := stands.refused found
  rw [round, stands.fragment_eq, stands.position, Position.advance_eq_locate
    (Utf8.encode_front ⟨read ++ behind, same.symm⟩), ← Utf8.bytes_eq]
  rw [stands.eq_standingAt same] at round
  refine ⟨front, read, behind, same, round, rfl, ?_⟩
  rw [← quotation_eq_iff read]
  constructor
  · rintro ⟨front', read', more, behind', same', place, round', short, line, text⟩
    -- the place tells what is in front, and the round what it has read
    have offset := congrArg Position.offset (Option.some.inj place)
    obtain ⟨rfl, rest⟩ := Utf8.append_inj_of_length (same.symm.trans same') offset
    obtain ⟨rfl, rfl⟩ := Utf8.append_inj_of_length rest (round.symm.trans round')
    exact ⟨more, front_restOfLine line (List.prefix_append more behind'), short,
      String.ofList_injective (Option.some.inj text)⟩
  · rintro ⟨more, inLine, short, text⟩
    obtain ⟨behind', rfl⟩ := inLine.trans (List.takeWhile_prefix _)
    refine ⟨front, read, more, behind', same, rfl, round, short, fun newline => ?_, ?_⟩
    · simpa using List.mem_takeWhile_imp (inLine.mem newline)
    · rw [← text]
      rfl

/-- The quotation of a text with characters of two bytes that all fit. -/
theorem umlauts_quoted : (ofSource "x = äöü;").run.error =
      some (.unrecognizedInput "äöü;" (some ⟨1, 5, 4⟩)) ∧
    ∃ front read behind : List Char, "x = äöü;".toList = front ++ (read ++ behind) ∧
      (standingAt "x = äöü;" (encode front).length).round.length = (encode read).length ∧
      CompileError.unrecognizedInput "äöü;" (some ⟨1, 5, 4⟩) =
        .unrecognizedInput (String.ofList (quotation read behind))
          (some (Position.locate (Utf8.bytes "x = äöü;") (encode front).length)) ∧
      (QuotesSource "x = äöü;" (.unrecognizedInput "äöü;" (some ⟨1, 5, 4⟩)) ↔
        (Splits (contextLength + 1) (restOfLine behind) →
          fitting (contextLength + 1) (restOfLine behind) ++ [replacement] <+:
            restOfLine behind)) := by
  have refused : (ofSource "x = äöü;").run.error =
      some (.unrecognizedInput "äöü;" (some ⟨1, 5, 4⟩)) := by decide +kernel
  exact ⟨refused, run_quotes refused⟩

/-- The last of three characters of four bytes is cut. -/
theorem third_emoji_replaced : ∃ e, (ofSource "😀😀😀").run.error = some e ∧
    ¬ QuotesSource "😀😀😀" e := by
  refine ⟨.unrecognizedInput "😀😀\uFFFD" (some ⟨1, 1, 0⟩), by decide +kernel, ?_⟩
  rintro ⟨front, read, more, behind, same, -, -, -, -, text⟩
  have found := Option.some.inj text
  have inside : replacement ∈ trimEnd (read ++ more) := by
    rw [← String.toList_ofList (l := trimEnd (read ++ more)), ← found]
    decide
  have inText : replacement ∈ "😀😀😀".toList := by
    rw [same, ← List.append_assoc read]
    exact List.mem_append_right front
      (List.mem_append_left behind ((trimEnd_front _).mem inside))
  exact absurd inText (by decide)

end Scanner

end JackCompiler
