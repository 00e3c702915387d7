import JackCompiler.Proofs.Lexeme.Rounds
/-!
# Maximal munch

What the scanner finds, said without automata: the longest lexeme that the text opens with, of the
highest kind that fits it. A round closes only over all the bytes that somebody takes, and so a text
is refused that opens with a lexeme but goes on like a longer one that never comes to its end. Of
the classes only comments between a slash and a star and a star and a slash are like that: the slash
is a lexeme, and nothing refuses a byte while the second star and slash are looked for.

        /* no end in sight      taken to the end of the text, and closed by nobody
        ▲
        a lexeme, passed over
-/

namespace JackCompiler

/-! ### The longest lexeme -/

/-- No lexeme is in front. -/
def NoLexeme (r : List UInt8) : Prop := ∀ w kind, w <+: r → ¬ Lexeme kind w

/-- The longest lexeme in front, and the kind of highest rank that fits it. -/
structure LongestLexeme (r w : List UInt8) (kind : TokenKind) : Prop where
  inFront : w <+: r
  lexeme : Lexeme kind w
  longest : ∀ v k, v <+: r → Lexeme k v → v.length ≤ w.length
  highest : ∀ k, Lexeme k w → k ≠ kind → k.rank < kind.rank

namespace LongestLexeme

variable {r w w' : List UInt8} {kind kind' : TokenKind}

/-- A text opens with one longest lexeme, and that is of one kind. -/
theorem unique (h : LongestLexeme r w kind) (h' : LongestLexeme r w' kind') :
    w = w' ∧ kind = kind' := by
  have length : w.length = w'.length :=
    Nat.le_antisymm (h'.longest w kind h.inFront h.lexeme) (h.longest w' kind' h'.inFront h'.lexeme)
  have front := List.prefix_of_prefix_length_le h.inFront h'.inFront length.le
  obtain rfl : w = w' := front.eq_of_length length
  refine ⟨rfl, by_contra fun other => ?_⟩
  exact Nat.lt_asymm (h.highest kind' h'.lexeme (Ne.symm other)) (h'.highest kind h.lexeme other)

/-- The spelling of a reserved word is that word. -/
theorem keyword {k : Keyword} (h : LongestLexeme r w kind) (spelled : w = Utf8.bytes k.text) :
    kind = .keyword k := by
  by_contra other
  have above := h.highest (.keyword k) spelled (Ne.symm other)
  have top : kind.rank ≤ 5 := by cases kind <;> simp [TokenKind.rank]
  exact absurd above (Nat.not_lt_of_le top)

/-- A name that spells no reserved word is an identifier. -/
theorem identifier (h : LongestLexeme r w kind) (name : IsName w)
    (free : ∀ k : Keyword, w ≠ Utf8.bytes k.text) : kind = .identifier := by
  rcases h.lexeme.of_isName name with rfl | ⟨k, rfl⟩
  · rfl
  · exact absurd h.lexeme (free k)

end LongestLexeme

/-! ### Comments that do not end -/

/-- Somebody takes a comment that does not end. -/
theorem OpenBlockComment.taken {w : List UInt8} (h : OpenBlockComment w) :
    ∃ a ∈ Automaton.standard.map Automaton.reset, a.Takes w := by
  obtain ⟨body, rfl, opened⟩ := h
  refine ⟨.blockComment, Automaton.mem_standard.2 (by simp), Automaton.takes_iff.2 (.inr ?_)⟩
  refine Progress.blockComment_opens.waits.2 (.inr ⟨_, rfl, ?_⟩)
  refine Progress.blockComment_slash_opens.waits.2 (.inr ⟨_, rfl, ?_⟩)
  exact Progress.blockComment_waits.1.2 opened

/-- Somebody takes a lexeme. -/
theorem Lexeme.taken {kind : TokenKind} {w : List UInt8} (h : Lexeme kind w) :
    ∃ a ∈ Automaton.standard.map Automaton.reset, a.Takes w := by
  obtain ⟨a, member, closes⟩ := Automaton.standard_closes.2 h
  exact ⟨a, member, Automaton.takes_iff.2 (.inl ⟨kind, closes⟩)⟩

/-- Somebody takes another byte, whichever it is. -/
theorem OpenBlockComment.taken_concat {w : List UInt8} (h : OpenBlockComment w) (b : UInt8) :
    ∃ a ∈ Automaton.standard.map Automaton.reset, a.Takes (w ++ [b]) := by
  rcases h.concat b with closed | opened
  · have lexeme : Lexeme .comment (w ++ [b]) := .inr closed
    exact lexeme.taken
  · exact opened.taken

/-! ### What a round finds -/

namespace Scanner

/-- The roster is the one for source texts, and there is something to read. -/
structure Ready (s : Scanner) : Prop where
  roster : s.roster = Automaton.standard.map Automaton.reset
  going : s.refused = false
  unread : s.unread ≠ []

variable {s : Scanner} {w : List UInt8} {kind : TokenKind}

/-- The bytes of the round at the first unread byte: nobody takes more. -/
structure Covers (s : Scanner) (w : List UInt8) : Prop where
  inFront : w <+: s.unread
  round : s.round = ⟨Round.survivors s.roster w, w.length⟩
  alive : w ≠ [] → ∃ a ∈ s.roster, a.Takes w
  longest : ∀ v, v <+: s.unread → (∃ a ∈ s.roster, a.Takes v) → v.length ≤ w.length

theorem exists_covers (s : Scanner) : ∃ w, s.Covers w := by
  obtain ⟨n, bound, round, alive, dead⟩ := Round.play_eq s.roster 0 s.unread
  have length : (s.unread.take n).length = n := List.length_take_of_le bound
  refine ⟨s.unread.take n, List.take_prefix n s.unread, ?_, fun begun => ?_, fun v front taken => ?_⟩
  · rw [Scanner.round, round, length, Nat.zero_add]
  · by_contra nobody
    refine alive (fun none => begun (by rw [none, List.take_zero])) (Round.survivors_eq_nil.2 ?_)
    exact fun a member takes => nobody ⟨a, member, takes⟩
  · rw [length]
    refine Round.longest dead front.length_le ?_
    rwa [← List.prefix_iff_eq_take.1 front]

/-- Somebody closes over the bytes of the round if they are a lexeme. -/
theorem Covers.winner (covers : s.Covers w) (ready : s.Ready) :
    ((∀ kind, ¬ Lexeme kind w) ∧ s.round.winner = none) ∨
      ∃ kind, Lexeme kind w ∧ s.round.winner = some kind ∧
        ∀ k, Lexeme k w → k ≠ kind → k.rank < kind.rank := by
  have closing (k : TokenKind) :
      k ∈ (Round.survivors s.roster w).filterMap (·.close) ↔ Lexeme k w := by
    rw [Round.mem_survivors_closing, ready.roster, Automaton.standard_closes]
  rw [covers.round, Round.winner]
  rcases Round.foldl_prefer ((Round.survivors s.roster w).filterMap (·.close)) with
    ⟨none, found⟩ | ⟨kind, member, found, highest⟩
  · refine .inl ⟨fun k lexeme => ?_, by simp only [found, ite_self]⟩
    have := (closing k).2 lexeme
    rw [none] at this
    cases this
  · have lexeme := (closing kind).1 member
    refine .inr ⟨kind, lexeme, ?_, fun k fits other => ?_⟩
    · rw [if_neg (by simpa using lexeme.ne_nil)]
      exact found
    · refine Nat.lt_of_le_of_ne (highest k ((closing k).2 fits)) fun same => ?_
      exact other (fits.eq_of_rank lexeme same)

/-- A lexeme in front is covered. -/
theorem Covers.length_le (covers : s.Covers w) (ready : s.Ready) {v : List UInt8}
    (front : v <+: s.unread) (lexeme : Lexeme kind v) : v.length ≤ w.length := by
  refine covers.longest v front ?_
  rw [ready.roster]
  exact lexeme.taken

/-- Nobody takes the byte behind the round. -/
theorem Covers.stops (covers : s.Covers w) {b : UInt8} {v : List UInt8}
    (same : s.unread = w ++ b :: v) : ¬ ∃ a ∈ s.roster, a.Takes (w ++ [b]) := by
  intro taken
  have front : w ++ [b] <+: s.unread := ⟨v, by rw [same, List.append_assoc]; rfl⟩
  have more := covers.longest (w ++ [b]) front taken
  rw [List.length_append] at more
  exact Nat.not_succ_le_self w.length more

/-- A comment that does not end is covered to the end of the text. -/
theorem Covers.eq_unread (covers : s.Covers w) (ready : s.Ready)
    (opened : OpenBlockComment s.unread) : w = s.unread := by
  refine covers.inFront.eq_of_length (Nat.le_antisymm covers.inFront.length_le ?_)
  refine covers.longest s.unread List.prefix_rfl ?_
  rw [ready.roster]
  exact opened.taken

/-- Nothing but the end of the text stops a comment that does not end. -/
theorem Covers.unread_eq (covers : s.Covers w) (ready : s.Ready) (opened : OpenBlockComment w) :
    w = s.unread := by
  obtain ⟨rest, same⟩ := covers.inFront
  cases rest with
  | nil => rw [← same, List.append_nil]
  | cons b rest =>
    refine absurd ?_ (covers.stops same.symm)
    rw [ready.roster]
    exact opened.taken_concat b

/-- A round that covers no lexeme has none in front, or reads a comment that does not end. -/
theorem Covers.none_or_open (covers : s.Covers w) (ready : s.Ready)
    (none : ∀ kind, ¬ Lexeme kind w) : NoLexeme s.unread ∨ OpenBlockComment s.unread := by
  by_cases begun : w = []
  · refine .inl fun v kind front lexeme => lexeme.ne_nil ?_
    have := covers.length_le ready front lexeme
    rwa [begun, List.length_nil, Nat.le_zero, List.length_eq_zero_iff] at this
  · obtain ⟨a, member, takes⟩ := covers.alive begun
    rw [ready.roster] at member
    rcases Automaton.takes_iff.1 takes with ⟨kind, closes⟩ | waits
    · exact absurd (Automaton.standard_closes.1 ⟨a, member, closes⟩) (none kind)
    · rcases Automaton.standard_waits member begun waits with ⟨kind, lexeme⟩ | quoted | opened
      · exact absurd lexeme (none kind)
      · refine .inl fun v kind front lexeme => ?_
        have le := covers.length_le ready front lexeme
        obtain ⟨rest, rfl⟩ := List.prefix_of_prefix_length_le front covers.inFront le
        exact quoted.not_lexeme_prefix lexeme
      · rw [covers.unread_eq ready opened] at opened
        exact .inr opened

/-- What a round covers that somebody closes over is the longest lexeme in front. -/
theorem Covers.longestLexeme (covers : s.Covers w) (ready : s.Ready) (lexeme : Lexeme kind w)
    (highest : ∀ k, Lexeme k w → k ≠ kind → k.rank < kind.rank) :
    LongestLexeme s.unread w kind :=
  ⟨covers.inFront, lexeme, fun _ _ front other => covers.length_le ready front other, highest⟩

theorem next?_refused (ready : s.Ready) (lost : s.round.winner = none) :
    s.next? = some (.error (.unrecognizedInput (s.fragment s.round.length) (some s.position)),
      { s with refused := true }) := by
  simp [next?, ready.going, ready.unread, lost]

theorem next?_taken {behind : List UInt8} (ready : s.Ready) (covers : s.Covers w)
    (same : s.unread = w ++ behind) (won : s.round.winner = some kind) :
    s.next? = some (.ok ⟨kind, valueOf kind w, ⟨s.position, s.position.advance w.dropLast⟩⟩,
      { s with unread := behind, position := s.position.advance w }) := by
  have length : s.round.length = w.length := by rw [covers.round]
  have front : s.unread.take w.length = w := by rw [same, List.take_left]
  have rest : s.unread.drop w.length = behind := by rw [same, List.drop_left]
  simp [next?, ready.going, ready.unread, won, take, length, front, rest]

/-- A round fails just where no lexeme is in front, or a comment does not end; otherwise it takes
the longest lexeme in front. -/
theorem munch (ready : s.Ready) :
    ((∃ e rest, s.next? = some (.error e, rest)) ↔
        NoLexeme s.unread ∨ OpenBlockComment s.unread) ∧
      (¬ (NoLexeme s.unread ∨ OpenBlockComment s.unread) →
        ∃ w behind kind, s.unread = w ++ behind ∧ LongestLexeme s.unread w kind ∧
          s.next? = some (.ok ⟨kind, valueOf kind w, ⟨s.position, s.position.advance w.dropLast⟩⟩,
            { s with unread := behind, position := s.position.advance w })) := by
  obtain ⟨w, covers⟩ := s.exists_covers
  rcases covers.winner ready with ⟨none, lost⟩ | ⟨kind, lexeme, won, highest⟩
  · have excused := covers.none_or_open ready none
    refine ⟨iff_of_true ⟨_, _, next?_refused ready lost⟩ excused, fun sound => absurd excused sound⟩
  · have longest := covers.longestLexeme ready lexeme highest
    obtain ⟨behind, same⟩ := covers.inFront
    have taken := next?_taken ready covers same.symm won
    refine ⟨iff_of_false ?_ ?_, fun _ => ⟨w, behind, kind, same.symm, longest, taken⟩⟩
    · rintro ⟨e, rest, refused⟩
      rw [taken] at refused
      cases refused
    · rintro (nothing | opened)
      · exact nothing w kind covers.inFront lexeme
      · rw [covers.eq_unread ready opened] at lexeme
        exact opened.not_lexeme lexeme

/-! ### At every byte of a source text -/

/-- The scanner of a source text at one of its bytes. -/
def standingAt (source : String) (offset : Nat) : Scanner :=
  { ofSource source with
    unread := (Utf8.bytes source).drop offset
    position := Position.start.advance ((Utf8.bytes source).take offset) }

/-- At every byte of a source text the round fails just where no lexeme is in front or a comment
does not end; otherwise it takes the longest lexeme in front, the spelling of a reserved word as
that word and any other name as an identifier. -/
theorem standingAt_munch (source : String) (offset : Nat)
    (h : offset < (Utf8.bytes source).length) :
    ((∃ e rest, (standingAt source offset).next? = some (.error e, rest)) ↔
        NoLexeme ((Utf8.bytes source).drop offset) ∨
          OpenBlockComment ((Utf8.bytes source).drop offset)) ∧
      (¬ (NoLexeme ((Utf8.bytes source).drop offset) ∨
          OpenBlockComment ((Utf8.bytes source).drop offset)) →
        ∃ w behind kind, (Utf8.bytes source).drop offset = w ++ behind ∧
          LongestLexeme ((Utf8.bytes source).drop offset) w kind ∧
          (standingAt source offset).next? =
            some (.ok ⟨kind, valueOf kind w, ⟨(standingAt source offset).position,
                (standingAt source offset).position.advance w.dropLast⟩⟩,
              { standingAt source offset with
                unread := behind
                position := (standingAt source offset).position.advance w }) ∧
          (∀ k : Keyword, w = Utf8.bytes k.text → kind = .keyword k) ∧
          (IsName w → (∀ k : Keyword, w ≠ Utf8.bytes k.text) → kind = .identifier)) := by
  have ready : (standingAt source offset).Ready := ⟨rfl, rfl, by simpa [standingAt] using h⟩
  obtain ⟨fails, takes⟩ := munch ready
  refine ⟨fails, fun sound => ?_⟩
  obtain ⟨w, behind, kind, same, longest, found⟩ := takes sound
  exact ⟨w, behind, kind, same, longest, found, fun _ => longest.keyword, longest.identifier⟩

/-- The star of the opening does not end the comment. -/
theorem slash_star_slash_refused : 0 < (Utf8.bytes "/*/").length ∧
    ∃ e rest, (standingAt "/*/" 0).next? = some (.error e, rest) :=
  ⟨by decide, (standingAt_munch "/*/" 0 (by decide)).1.2 (.inr ⟨[47], by decide, by decide⟩)⟩

end Scanner

end JackCompiler
