import JackCompiler.Proofs.Lexeme.Lossless
/-!
# One byte of lookahead

Where a lexeme ends is told by the one byte behind it: with that byte it is no lexeme and does not
open one. So a text is cut into pieces that know of each other no more than the next byte, and of
what stands behind a piece everything but its first byte can be replaced.

        l e t │ ␣ ␣ │ x 1 │ = │ …         "let␣", "␣␣x", "x1=" are neither lexemes nor open ones
-/

namespace JackCompiler

open Utf8 (encode)

/-! ### What goes on -/

/-- The bytes are a lexeme, or open a string or a comment between slashes and stars. -/
def Begun (w : List UInt8) : Prop :=
  (∃ kind, Lexeme kind w) ∨ OpenQuotation w ∨ OpenBlockComment w

/-- Somebody takes a string without its second quote. -/
theorem OpenQuotation.taken {w : List UInt8} (h : OpenQuotation w) :
    ∃ a ∈ Automaton.standard.map Automaton.reset, a.Takes w := by
  obtain ⟨body, all, rfl⟩ := h
  refine ⟨.quotation, Automaton.mem_standard.2 (by simp), Automaton.takes_iff.2 (.inr ?_)⟩
  refine Progress.quotation_opens.waits.2 (.inr ⟨_, rfl, ?_⟩)
  exact Progress.quotation_opened_waits.2 all

/-- What is begun is what somebody takes. -/
theorem begun_iff {w : List UInt8} (some : w ≠ []) :
    Begun w ↔ ∃ a ∈ Automaton.standard.map Automaton.reset, a.Takes w := by
  constructor
  · rintro (⟨kind, lexeme⟩ | quoted | opened)
    · exact lexeme.taken
    · exact quoted.taken
    · exact opened.taken
  · rintro ⟨a, member, takes⟩
    rcases Automaton.takes_iff.1 takes with ⟨kind, closes⟩ | waits
    · exact .inl ⟨kind, Automaton.standard_closes.1 ⟨a, member, closes⟩⟩
    · exact Automaton.standard_waits member some waits

/-! ### Pieces -/

/-- A lexeme and its kind. -/
structure Piece where
  kind : TokenKind
  lexeme : List UInt8

namespace Piece

/-- The value of a token with this lexeme. -/
def value (p : Piece) : String := Scanner.valueOf p.kind p.lexeme

/-- What the piece is for those who read tokens. -/
def content (p : Piece) : TokenKind × String := (p.kind, p.value)

/-- The piece ends in front of these bytes, and is of the highest kind that fits it. -/
structure Whole (p : Piece) (behind : List UInt8) : Prop where
  lexeme : Lexeme p.kind p.lexeme
  highest : ∀ k, Lexeme k p.lexeme → k ≠ p.kind → k.rank < p.kind.rank
  stops : ∀ b ∈ behind.head?, ¬ Begun (p.lexeme ++ [b])

/-- Only the first byte behind a piece counts. -/
theorem Whole.of_head {p : Piece} {v v' : List UInt8} (h : p.Whole v) (same : v'.head? = v.head?) :
    p.Whole v' :=
  ⟨h.lexeme, h.highest, by rw [same]; exact h.stops⟩

end Piece

/-- The bytes of pieces put together. -/
def bytesOf (ps : List Piece) : List UInt8 := ps.flatMap Piece.lexeme

@[simp] theorem bytesOf_nil : bytesOf [] = [] := rfl

@[simp] theorem bytesOf_cons (p : Piece) (ps : List Piece) :
    bytesOf (p :: ps) = p.lexeme ++ bytesOf ps := rfl

@[simp] theorem bytesOf_append (ps qs : List Piece) :
    bytesOf (ps ++ qs) = bytesOf ps ++ bytesOf qs := List.flatMap_append

/-- Their bytes put together are cut into the pieces. -/
def Cut : List Piece → Prop
  | [] => True
  | p :: ps => p.Whole (bytesOf ps) ∧ Cut ps

theorem Cut.behind {ps qs : List Piece} (h : Cut (ps ++ qs)) : Cut qs := by
  induction ps with
  | nil => exact h
  | cons p ps ih => exact ih h.2

/-! ### Pieces and tokens -/

/-- What a token is, wherever it stands: its kind and its value. -/
def Token.content (t : Token) : TokenKind × String := (t.kind, t.value)

/-- The lexeme that a token has in the text, and its kind. -/
def Token.piece (t : Token) : Piece := ⟨t.kind, Utf8.bytes t.text⟩

/-- The value of a token is that of its lexeme. -/
theorem Token.piece_value (t : Token) : t.piece.value = t.value := by
  simp only [Piece.value, piece, Scanner.valueOf, text]
  split
  · have quote : Utf8.bytes "\"" = [34] := by decide
    rw [Utf8.bytes_append, Utf8.bytes_append, quote, List.singleton_append, List.cons_append,
      List.drop_one, List.tail_cons, List.dropLast_concat, Utf8.bytes_eq, Utf8.decode_encode,
      String.ofList_toList]
  · rw [Utf8.bytes_eq, Utf8.decode_encode, String.ofList_toList]

theorem map_piece_content (ts : List Token) :
    (ts.map Token.piece).map Piece.content = ts.map Token.content := by
  rw [List.map_map]
  refine List.map_congr_left fun t _ => ?_
  rw [Function.comp_apply, Piece.content, t.piece_value]
  rfl

theorem bytes_textOf (ts : List Token) :
    Utf8.bytes (textOf ts) = bytesOf (ts.map Token.piece) := by
  induction ts with
  | nil => rfl
  | cons t ts ih =>
    rw [textOf_cons, Utf8.bytes_append, ih]
    rfl

namespace Scanner

variable {s rest : Scanner} {p : Piece} {v : List UInt8} {t : Token}

/-- A round finds the piece in front. -/
theorem next?_of_whole (ready : s.Ready) (same : s.unread = p.lexeme ++ v) (whole : p.Whole v) :
    s.next? = some (.ok ⟨p.kind, p.value, ⟨s.position, s.position.advance p.lexeme.dropLast⟩⟩,
      { s with unread := v, position := s.position.advance p.lexeme }) := by
  obtain ⟨w, covers⟩ := s.exists_covers
  have front : p.lexeme <+: s.unread := ⟨v, same.symm⟩
  obtain ⟨u, rfl⟩ := List.prefix_of_prefix_length_le front covers.inFront
    (covers.length_le ready front whole.lexeme)
  have ended : u = [] := by
    cases u with
    | nil => rfl
    | cons b u =>
      -- the round would have taken the byte behind the piece
      obtain ⟨r, further⟩ := covers.inFront
      have head : v.head? = some b := by
        rw [same, List.append_assoc, List.append_cancel_left_eq] at further
        rw [← further]
        rfl
      obtain ⟨a, member, takes⟩ := covers.alive (by simp)
      rw [ready.roster] at member
      refine absurd ((begun_iff (by simp)).2 ⟨a, member, ?_⟩) (whole.stops b head)
      exact Automaton.Takes.of_append (v := u) (by simpa using takes)
  subst ended
  rw [List.append_nil] at covers
  rcases covers.winner ready with ⟨none, -⟩ | ⟨kind, lexeme, won, highest⟩
  · exact absurd whole.lexeme (none p.kind)
  · obtain rfl : kind = p.kind := by
      by_contra other
      exact Nat.lt_asymm (whole.highest kind lexeme other)
        (highest p.kind whole.lexeme (Ne.symm other))
    exact next?_taken ready covers same won

/-- What a round finds is a piece in front. -/
theorem whole_of_next? (ready : s.Ready) (h : s.next? = some (.ok t, rest)) :
    ∃ (p : Piece) (v : List UInt8), s.unread = p.lexeme ++ v ∧ p.Whole v ∧ t.kind = p.kind ∧
      rest.unread = v := by
  obtain ⟨w, covers⟩ := s.exists_covers
  rcases covers.winner ready with ⟨-, lost⟩ | ⟨kind, lexeme, won, highest⟩
  · rw [next?_refused ready lost] at h
    cases h
  · obtain ⟨v, same⟩ := covers.inFront
    rw [next?_taken ready covers same.symm won] at h
    cases h
    refine ⟨⟨kind, w⟩, v, same.symm, ⟨lexeme, highest, fun b head begun => ?_⟩, rfl, rfl⟩
    have taken := (begun_iff (by simp)).1 begun
    obtain ⟨v, rfl⟩ : ∃ v', v = b :: v' := List.head?_eq_some_iff.1 head
    rw [← ready.roster] at taken
    exact covers.stops same.symm taken

/-- A text that is cut into pieces is read to its end, and its tokens are these pieces. -/
theorem runFor_of_cut {ps : List Piece} (cut : Cut ps) (unread : s.unread = bytesOf ps)
    (roster : s.roster = Automaton.standard.map Automaton.reset) (going : s.refused = false)
    {rounds : Nat} (enough : s.unread.length ≤ rounds) :
    (runFor rounds s []).error = none ∧
      (runFor rounds s []).tokens.map Token.content = ps.map Piece.content := by
  induction ps generalizing s rounds with
  | nil =>
    have done : s.next? = none := by simp [next?, unread]
    cases rounds <;> simp [runFor, done]
  | cons p ps ih =>
    obtain ⟨whole, rest⟩ := cut
    have some := List.length_pos_iff.2 whole.lexeme.ne_nil
    rw [unread, bytesOf_cons, List.length_append] at enough
    obtain ⟨rounds, rfl⟩ : ∃ n, rounds = n + 1 := Nat.exists_eq_add_one.2 (by omega)
    have ready : s.Ready := ⟨roster, going, by simp [unread, whole.lexeme.ne_nil]⟩
    have shorter : (bytesOf ps).length ≤ rounds := by omega
    obtain ⟨sound, tokens⟩ := ih rest
      (s := { s with unread := bytesOf ps, position := s.position.advance p.lexeme }) rfl roster
      going shorter
    rw [runFor, next?_of_whole (v := bytesOf ps) ready unread whole]
    dsimp only
    rw [runFor_done]
    refine ⟨sound, ?_⟩
    rw [List.map_append, tokens, List.map_cons]
    rfl

/-- A text that is read to its end is cut into the pieces of its tokens. -/
theorem StandsAt.cut {front behind : List Char} (h : s.StandsAt front behind) {rounds : Nat}
    (enough : s.unread.length ≤ rounds) (sound : (runFor rounds s []).error = none) :
    s.unread = bytesOf ((runFor rounds s []).tokens.map Token.piece) ∧
      Cut ((runFor rounds s []).tokens.map Token.piece) := by
  induction rounds generalizing s front behind with
  | zero =>
    rw [List.length_eq_zero_iff.1 (Nat.le_zero.1 enough)]
    exact ⟨rfl, trivial⟩
  | succ rounds ih =>
    rw [runFor] at sound ⊢
    rcases h.next?_cases with ⟨rfl, found⟩ | ⟨-, fragment, rest, found⟩ |
      ⟨lexeme, behind', t, rest, nonempty, rfl, found, stands, text, span⟩
    · rw [found, h.unread]
      exact ⟨rfl, trivial⟩
    · rw [found] at sound
      cases sound
    · rw [found] at sound ⊢
      dsimp only at sound ⊢
      rw [runFor_done] at sound ⊢
      have ready : s.Ready := ⟨h.roster, h.going, by simp [h.unread, nonempty]⟩
      obtain ⟨p, v, same, whole, kind, rfl⟩ := whole_of_next? ready found
      have unread : s.unread = encode lexeme ++ rest.unread := by
        rw [h.unread, Utf8.encode_append, stands.unread]
      have bytes : encode lexeme = p.lexeme := List.append_cancel_right (unread.symm.trans same)
      obtain rfl : t.piece = p := by rw [Token.piece, kind, text, Utf8.bytes_ofList, bytes]
      have shorter : rest.unread.length ≤ rounds := by
        have := List.length_pos_iff.2 whole.lexeme.ne_nil
        rw [same, List.length_append] at enough
        omega
      obtain ⟨behind, cut⟩ := ih stands shorter sound
      refine ⟨?_, ?_, cut⟩
      · rw [same, behind]
        rfl
      · rwa [behind] at whole

/-- The source text of tokens is cut into their pieces. -/
theorem cut_of_tokenize {source : String} {tokens : List Token}
    (h : tokenize source = .ok tokens) :
    Utf8.bytes source = bytesOf (tokens.map Token.piece) ∧ Cut (tokens.map Token.piece) := by
  rw [tokenize] at h
  split at h
  · next sound =>
    cases h
    exact (ofSource_standsAt source).cut (Nat.le_refl _) sound
  · cases h

/-- A source text that is cut into pieces has tokens of their kinds and values. -/
theorem tokenize_of_cut {source : String} {ps : List Piece} (cut : Cut ps)
    (bytes : Utf8.bytes source = bytesOf ps) : ∃ tokens, tokenize source = .ok tokens ∧
      tokens.map Token.content = ps.map Piece.content := by
  obtain ⟨sound, same⟩ := runFor_of_cut (s := ofSource source) cut bytes rfl rfl (Nat.le_refl _)
  refine ⟨(ofSource source).run.tokens, ?_, same⟩
  rw [tokenize, run, sound]

end Scanner

end JackCompiler
