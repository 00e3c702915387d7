import JackCompiler.Proofs.Lexeme.Lookahead
/-!
# Layout between lexemes

Blanks, comments between slashes and stars, and comments up to a newline can be put between any two
lexemes of a text, if a blank comes first. No lexeme goes on with that blank but a run of blanks,
which grows by it, and nothing goes on behind a comment that has ended. So the text is cut into the
same significant lexemes as before.

        x │ / │ y           x │ / │ ␣ │ // half ⏎ │ y
-/

namespace JackCompiler

/-- Runs of blanks and whole comments, one behind the other. A comment up to the end of a line has
its newline. -/
inductive IsLayout : List UInt8 → Prop
  | nil : IsLayout []
  | blanks {w v : List UInt8} (run : IsBlankRun w) (rest : IsLayout v) : IsLayout (w ++ v)
  | line {body v : List UInt8} (free : ∀ b ∈ body, b ≠ Position.newline) (rest : IsLayout v) :
    IsLayout (47 :: 47 :: body ++ [Position.newline] ++ v)
  | block {w v : List UInt8} (comment : IsBlockComment w) (rest : IsLayout v) : IsLayout (w ++ v)

/-! ### Runs of blanks -/

/-- No name and no number goes on with a blank. -/
theorem not_isNameRest {b : UInt8} (blank : isSpaceByte b) : ¬ isNameRest b := by
  obtain rfl | rfl | rfl | rfl : b = 32 ∨ b = 9 ∨ b = 10 ∨ b = 13 := by
    simpa [isSpaceByte, or_assoc] using blank
  all_goals decide

/-- What begins with a blank is a run of blanks. -/
theorem Lexeme.of_blank {kind : TokenKind} {b : UInt8} {w : List UInt8} (h : Lexeme kind (b :: w))
    (blank : isSpaceByte b) : kind = .whitespace := by
  obtain ⟨_, _, same, opens⟩ := h.first
  obtain ⟨rfl, -⟩ := List.cons.inj same
  cases kind with
  | whitespace => rfl
  | comment => exact absurd blank (by rw [show b = 47 from opens]; decide)
  | identifier => exact absurd opens (not_isNameStart (.inl blank))
  | keyword k => exact absurd opens (not_isNameStart (.inl blank))
  | integerConstant =>
    have digit : isDigitByte b := opens
    exact absurd (by simp [isNameRest, digit]) (not_isNameRest blank)
  | stringConstant => exact absurd blank (by rw [show b = 34 from opens]; decide)
  | symbol s => exact absurd blank opens.1

/-- Blanks go on with blanks only. -/
theorem begun_blank {b : UInt8} {w : List UInt8} (blank : isSpaceByte b) :
    Begun (b :: w) ↔ ∀ c ∈ w, isSpaceByte c := by
  constructor
  · rintro (⟨kind, lexeme⟩ | ⟨body, -, same⟩ | ⟨body, same, -⟩)
    · obtain rfl := lexeme.of_blank blank
      exact fun c hc => lexeme.2 c (.tail b hc)
    · obtain ⟨rfl, -⟩ := List.cons.inj same
      cases blank
    · obtain ⟨rfl, -⟩ := List.cons.inj same
      cases blank
  · intro all
    exact .inl ⟨.whitespace, by simp, List.forall_mem_cons.2 ⟨blank, all⟩⟩

/-- A run of blanks is whole in front of anything but a blank. -/
theorem Piece.whole_blanks {w v : List UInt8} (run : IsBlankRun w)
    (ends : ∀ b ∈ v.head?, ¬ isSpaceByte b) : Piece.Whole ⟨.whitespace, w⟩ v := by
  obtain ⟨b, w, rfl⟩ := List.exists_cons_of_ne_nil run.1
  obtain ⟨blank, all⟩ := List.forall_mem_cons.1 run.2
  refine ⟨run, fun k lexeme other => absurd (lexeme.of_blank blank) other, fun c head begun => ?_⟩
  exact ends c head ((begun_blank blank).1 begun c (by simp))

/-- No blank is behind a run of blanks. -/
theorem Piece.Whole.not_blank {w v : List UInt8} (h : Piece.Whole ⟨.whitespace, w⟩ v) :
    ∀ b ∈ v.head?, ¬ isSpaceByte b := by
  intro c head blank
  obtain ⟨some, all⟩ := h.lexeme
  obtain ⟨b, w, rfl⟩ := List.exists_cons_of_ne_nil some
  obtain ⟨first, rest⟩ := List.forall_mem_cons.1 all
  refine h.stops c head ((begun_blank first).2 fun d hd => ?_)
  rcases List.mem_append.1 hd with inside | last
  · exact rest d inside
  · rwa [List.mem_singleton.1 last]

/-! ### Comments that have ended -/

/-- What begins with a slash and goes on is a comment. -/
theorem Lexeme.of_slash {kind : TokenKind} {b : UInt8} {w : List UInt8}
    (h : Lexeme kind (47 :: b :: w)) : kind = .comment := by
  obtain ⟨_, _, same, opens⟩ := h.first
  obtain ⟨rfl, -⟩ := List.cons.inj same
  cases kind with
  | comment => rfl
  | symbol s =>
    obtain ⟨c, spelling, -⟩ := s.spelling_eq
    rw [Lexeme, spelling] at h
    cases h
  | _ => exact absurd opens (by rw [TokenKind.OpensWith]; decide)

/-- A newline is the last byte of a line comment. -/
theorem IsLineComment.free {w : List UInt8} (h : IsLineComment w) :
    ∀ b ∈ w.dropLast, b ≠ Position.newline := by
  have slashes {body : List UInt8} (free : ∀ b ∈ body, b ≠ Position.newline) :
      ∀ b ∈ 47 :: 47 :: body, b ≠ Position.newline :=
    List.forall_mem_cons.2 ⟨by decide, List.forall_mem_cons.2 ⟨by decide, free⟩⟩
  obtain ⟨body, free, rfl | rfl⟩ := h
  · exact fun b hb => slashes free b (List.dropLast_subset _ hb)
  · rw [List.dropLast_concat]
    exact slashes free

/-- Nothing goes on behind the newline of a comment. -/
theorem not_begun_line {body : List UInt8} (b : UInt8) :
    ¬ Begun (47 :: 47 :: body ++ [Position.newline] ++ [b]) := by
  rintro (⟨kind, lexeme⟩ | ⟨inner, -, same⟩ | ⟨inner, same, -⟩)
  · obtain rfl := lexeme.of_slash
    rcases lexeme with line | ⟨inner, same, -⟩
    · have all := line.free
      rw [List.dropLast_concat] at all
      exact all Position.newline (by simp) rfl
    · cases same
  · cases same
  · cases same

/-- Nothing goes on behind the star and slash of a comment. -/
theorem not_begun_block {w : List UInt8} (comment : IsBlockComment w) (b : UInt8) :
    ¬ Begun (w ++ [b]) := by
  obtain ⟨body, rfl, -⟩ := comment
  have ended : [42, 47] <:+: body ++ [42, 47] := ⟨body, [], by simp⟩
  rintro (⟨kind, lexeme⟩ | ⟨inner, -, same⟩ | ⟨inner, same, opened⟩)
  · obtain rfl := lexeme.of_slash
    rcases lexeme with ⟨line, -, same | same⟩ | ⟨inner, same, first⟩
    · cases same
    · cases same
    · have same : (body ++ [42, 47]) ++ [b] = (inner ++ [42]) ++ [47] := by simpa using same
      rw [(List.append_inj' same rfl).1] at ended
      exact first ended
  · cases same
  · have same : (body ++ [42, 47]) ++ [b] = inner := by simpa using same
    rw [← same] at opened
    exact opened (ended.trans (List.prefix_append _ _).isInfix)

/-- A comment that has ended is whole, whatever is behind it. -/
theorem Piece.whole_comment {w v : List UInt8}
    (ended : (∃ body, (∀ b ∈ body, b ≠ Position.newline) ∧
      w = 47 :: 47 :: body ++ [Position.newline]) ∨ IsBlockComment w) :
    Piece.Whole ⟨.comment, w⟩ v := by
  rcases ended with ⟨body, free, rfl⟩ | comment
  · refine ⟨.inl ⟨body, free, .inr rfl⟩, fun k lexeme other => absurd lexeme.of_slash other, ?_⟩
    exact fun b _ => not_begun_line b
  · refine ⟨.inr comment, fun k lexeme other => ?_, fun b _ => not_begun_block comment b⟩
    obtain ⟨body, rfl, -⟩ := comment
    exact absurd lexeme.of_slash other

/-! ### In front of a blank -/

/-- What ends with a blank is a run of blanks or a line comment. -/
theorem Lexeme.of_blank_last {kind : TokenKind} {w : List UInt8} {c : UInt8}
    (h : Lexeme kind (w ++ [c])) (blank : isSpaceByte c) :
    kind = .whitespace ∨ IsLineComment (w ++ [c]) := by
  have ends {v : List UInt8} {b : UInt8} (same : w ++ [c] = v ++ [b]) : c = b := by
    simpa using (List.append_inj' same rfl).2
  have last : c ∈ w ++ [c] := by simp
  cases kind with
  | whitespace => exact .inl rfl
  | comment =>
    rcases h with line | ⟨body, same, -⟩
    · exact .inr line
    · obtain rfl : c = 47 := ends (v := 47 :: 42 :: body ++ [42]) (by simpa using same)
      cases blank
  | identifier =>
    obtain ⟨first, rest, same, start, all⟩ := h
    rw [same] at last
    rcases List.mem_cons.1 last with rfl | inside
    · exact absurd start (not_isNameStart (.inl blank))
    · exact absurd (all c inside) (not_isNameRest blank)
  | integerConstant => exact absurd (by simp [isNameRest, h.2 c last]) (not_isNameRest blank)
  | stringConstant =>
    obtain ⟨body, -, same⟩ := h
    obtain rfl : c = 34 := ends same
    cases blank
  | keyword k =>
    rw [show w ++ [c] = Utf8.bytes k.text from h] at last
    exact absurd (k.letters c last) (not_isNameStart (.inl blank))
  | symbol s =>
    obtain ⟨b, spelling, opens⟩ := s.spelling_eq
    obtain rfl : c = b := ends (v := []) ((show w ++ [c] = _ from h).trans spelling)
    exact absurd blank opens.1

/-- Without its last byte, a blank, what opens with two bytes that are none still does. -/
theorem opens_without_blank {w body : List UInt8} {a b c : UInt8} (some : w ≠ [])
    (same : w ++ [c] = a :: b :: body) (blank : isSpaceByte c) (other : ¬ isSpaceByte b) :
    ∃ inner, w = a :: b :: inner ∧ body = inner ++ [c] := by
  match w with
  | [_] =>
    obtain ⟨-, same⟩ := List.cons.inj same
    obtain ⟨rfl, -⟩ := List.cons.inj same
    exact absurd blank other
  | _ :: _ :: inner =>
    cases same
    exact ⟨inner, rfl, rfl⟩

/-- With a blank only runs of blanks go on, and line comments without their newline. -/
theorem Lexeme.not_begun_blank {kind : TokenKind} {w : List UInt8} {c : UInt8}
    (h : Lexeme kind w) (other : kind ≠ .whitespace) (blank : isSpaceByte c)
    (closed : ∀ body : List UInt8, (∀ b ∈ body, b ≠ Position.newline) → w ≠ 47 :: 47 :: body) :
    ¬ Begun (w ++ [c]) := by
  rintro (⟨k, lexeme⟩ | quoted | ⟨body, same, opened⟩)
  · rcases lexeme.of_blank_last blank with rfl | ⟨body, free, same | same⟩
    · obtain ⟨b, v, rfl⟩ := List.exists_cons_of_ne_nil h.ne_nil
      exact other (h.of_blank (lexeme.2 b (.head _)))
    · obtain ⟨inner, rfl, rfl⟩ := opens_without_blank h.ne_nil same blank (by decide)
      exact closed inner (fun b hb => free b (by simp [hb])) rfl
    · exact closed body free (List.append_inj' same rfl).1
  · exact quoted.not_lexeme_prefix h
  · obtain ⟨inner, rfl, rfl⟩ := opens_without_blank h.ne_nil same blank (by decide)
    have still : OpenBlockComment (47 :: 42 :: inner) :=
      ⟨inner, rfl, fun inside => opened (inside.trans (List.prefix_append _ _).isInfix)⟩
    exact still.not_lexeme h

/-- A blank can be put behind a piece that is not the last, whatever follows it. -/
theorem Piece.Whole.before_blank {p : Piece} {v u : List UInt8} {c : UInt8} (h : p.Whole v)
    (more : v ≠ []) (other : p.kind ≠ .whitespace) (blank : isSpaceByte c) : p.Whole (c :: u) := by
  refine ⟨h.lexeme, h.highest, fun b head => ?_⟩
  obtain rfl : c = b := Option.some.inj head
  refine h.lexeme.not_begun_blank other blank fun body free line => ?_
  -- a line comment without its newline would have taken the next byte
  obtain ⟨d, v, rfl⟩ := List.exists_cons_of_ne_nil more
  refine h.stops d rfl (.inl ⟨.comment, .inl ?_⟩)
  rw [line]
  exact isLineComment_concat free d

/-! ### Layout in front of a text -/

/-- The pieces that do more than set others apart. -/
def solid (ps : List Piece) : List Piece := ps.filter (!·.kind.isTrivia)

@[simp] theorem solid_append (ps qs : List Piece) : solid (ps ++ qs) = solid ps ++ solid qs :=
  List.filter_append ..

/-- Blanks in front of a text grow its first run of blanks, or are one. -/
theorem Cut.blanks {w : List UInt8} {ps : List Piece} (run : IsBlankRun w) (cut : Cut ps) :
    ∃ qs, bytesOf qs = w ++ bytesOf ps ∧ Cut qs ∧ solid qs = solid ps := by
  cases ps with
  | nil =>
    refine ⟨[⟨.whitespace, w⟩], by simp, ⟨Piece.whole_blanks run (by simp), trivial⟩, rfl⟩
  | cons p ps =>
    obtain ⟨kind, lexeme⟩ := p
    obtain ⟨whole, rest⟩ := cut
    by_cases merge : kind = .whitespace
    · subst merge
      refine ⟨⟨.whitespace, w ++ lexeme⟩ :: ps, by simp, ⟨?_, rest⟩, rfl⟩
      refine Piece.whole_blanks ⟨by simp [run.1], fun b hb => ?_⟩ whole.not_blank
      exact (List.mem_append.1 hb).elim (run.2 b) (whole.lexeme.2 b)
    · refine ⟨⟨.whitespace, w⟩ :: ⟨kind, lexeme⟩ :: ps, by simp, ⟨?_, whole, rest⟩, rfl⟩
      refine Piece.whole_blanks run fun b head blank => ?_
      obtain ⟨first, v, same, -⟩ := whole.lexeme.first
      obtain rfl : lexeme = first :: v := same
      obtain rfl : first = b := Option.some.inj head
      exact merge (whole.lexeme.of_blank blank)

/-- Layout in front of a text changes no piece of it but a first run of blanks. -/
theorem Cut.layout {l : List UInt8} {ps : List Piece} (layout : IsLayout l) (cut : Cut ps) :
    ∃ qs, bytesOf qs = l ++ bytesOf ps ∧ Cut qs ∧ solid qs = solid ps := by
  induction layout with
  | nil => exact ⟨ps, rfl, cut, rfl⟩
  | @blanks w v run _ ih =>
    obtain ⟨qs, bytes, cut, same⟩ := ih
    obtain ⟨rs, bytes', cut, same'⟩ := cut.blanks run
    exact ⟨rs, by rw [bytes', bytes, List.append_assoc], cut, same'.trans same⟩
  | @line body v free _ ih =>
    obtain ⟨qs, bytes, cut, same⟩ := ih
    refine ⟨⟨.comment, 47 :: 47 :: body ++ [Position.newline]⟩ :: qs, ?_, ⟨?_, cut⟩, same⟩
    · rw [bytesOf_cons, bytes, List.append_assoc _ v]
    · exact Piece.whole_comment (.inl ⟨body, free, rfl⟩)
  | @block w v comment _ ih =>
    obtain ⟨qs, bytes, cut, same⟩ := ih
    refine ⟨⟨.comment, w⟩ :: qs, ?_, ⟨?_, cut⟩, same⟩
    · rw [bytesOf_cons, bytes, List.append_assoc]
    · exact Piece.whole_comment (.inr comment)

/-! ### Between two pieces -/

/-- A text that begins with a blank can be put behind any pieces in front of others. -/
theorem Cut.before_blank {ps qs rs : List Piece} {c : UInt8} {u : List UInt8}
    (cut : Cut (ps ++ qs)) (begun : ps ≠ []) (more : qs ≠ []) (behind : Cut rs)
    (bytes : bytesOf rs = c :: u) (blank : isSpaceByte c) :
    ∃ ts, bytesOf ts = bytesOf ps ++ bytesOf rs ∧ Cut ts ∧ solid ts = solid ps ++ solid rs := by
  induction ps with
  | nil => exact absurd rfl begun
  | cons p ps ih =>
    obtain ⟨whole, rest⟩ := cut
    cases ps with
    | nil =>
      obtain ⟨q, qs, rfl⟩ := List.exists_cons_of_ne_nil more
      by_cases merge : p.kind = .whitespace
      · have run : IsBlankRun p.lexeme := by
          have lexeme := whole.lexeme
          rwa [merge] at lexeme
        obtain ⟨ts, joined, cut, same⟩ := behind.blanks run
        have trivia : solid [p] = [] := by simp [solid, merge, TokenKind.isTrivia]
        exact ⟨ts, by simp [joined], cut, by rw [same, trivia, List.nil_append]⟩
      · refine ⟨p :: rs, by simp, ⟨?_, behind⟩, solid_append [p] rs⟩
        rw [bytes]
        exact whole.before_blank (by simp [rest.1.lexeme.ne_nil]) merge blank
    | cons p' ps =>
      obtain ⟨ts, joined, cut, same⟩ := ih rest (List.cons_ne_nil p' ps)
      refine ⟨p :: ts, by simp [joined], ⟨whole.of_head ?_, cut⟩, ?_⟩
      · obtain ⟨b, v, first⟩ := List.exists_cons_of_ne_nil rest.1.lexeme.ne_nil
        simp [joined, first]
      · rw [← List.singleton_append, solid_append, same, ← List.append_assoc, ← solid_append,
          List.singleton_append]

/-- **Layout that begins with a blank can be put between any two pieces of a text, and leaves it the
pieces that do more than set others apart.** -/
theorem Cut.insert {ps qs : List Piece} {c : UInt8} {l : List UInt8} (cut : Cut (ps ++ qs))
    (begun : ps ≠ []) (more : qs ≠ []) (layout : IsLayout (c :: l)) (blank : isSpaceByte c) :
    ∃ ts, bytesOf ts = bytesOf ps ++ (c :: l ++ bytesOf qs) ∧ Cut ts ∧
      solid ts = solid (ps ++ qs) := by
  obtain ⟨rs, bytes, behind, same⟩ := cut.behind.layout layout
  obtain ⟨ts, joined, cut, same'⟩ := cut.before_blank begun more behind bytes blank
  exact ⟨ts, by rw [joined, bytes], cut, by rw [same', same, solid_append]⟩

end JackCompiler
