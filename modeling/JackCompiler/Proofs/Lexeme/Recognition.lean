import JackCompiler.Proofs.Lexeme.Classes
/-!
# What the automata recognize

The bytes over which an automaton closes, and those with which it is still in without closing. The
roster closes over the lexemes and nothing else. With bytes that are no lexeme an automaton can only
be in if they open a string or a comment between slashes and stars.

        p ──w──▶ q, and q closes            p.Closes w kind
        p ──w──▶ q, and q does not close    p.Waits w
-/

namespace JackCompiler

/-! ### What an automaton has read -/

namespace Progress

/-- The progress with more bytes, if all of them are taken. -/
def run : Progress → List UInt8 → Option Progress
  | p, [] => some p
  | p, b :: w => (p.step b).bind (·.run w)

theorem run_append (p : Progress) (w v : List UInt8) :
    p.run (w ++ v) = (p.run w).bind (·.run v) := by
  induction w generalizing p with
  | nil => rfl
  | cons b w ih =>
    rw [List.cons_append, run, run]
    cases p.step b with
    | none => rfl
    | some q => exact ih q

/-- The bytes are taken, and with them a lexeme of the kind is whole. -/
def Closes (p : Progress) (w : List UInt8) (kind : TokenKind) : Prop :=
  ∃ q, p.run w = some q ∧ q.close = some kind

/-- The bytes are taken, and with them no lexeme is whole. -/
def Waits (p : Progress) (w : List UInt8) : Prop := ∃ q, p.run w = some q ∧ q.close = none

-- an automaton is run by these, one byte at a time
attribute [grind =] step LineComment.step BlockComment.step Quotation.step close run

/-! #### Runs of blanks and of digits, and names -/

theorem whitespace_run {begun : Bool} {w : List UInt8} {q : Progress} :
    (whitespace begun).run w = some q ↔
      (∀ b ∈ w, isSpaceByte b) ∧ whitespace (begun || !w.isEmpty) = q := by
  induction w generalizing begun with
  | nil => simp [run]
  | cons b w ih =>
    cases h : isSpaceByte b with
    | false => simp [run, step, h]
    | true => simp [run, step, h, ih]

theorem integer_run {begun : Bool} {w : List UInt8} {q : Progress} :
    (integer begun).run w = some q ↔
      (∀ b ∈ w, isDigitByte b) ∧ integer (begun || !w.isEmpty) = q := by
  induction w generalizing begun with
  | nil => simp [run]
  | cons b w ih =>
    cases h : isDigitByte b with
    | false => simp [run, step, h]
    | true => simp [run, step, h, ih]

theorem identifier_run {w : List UInt8} {q : Progress} :
    (identifier true).run w = some q ↔ (∀ b ∈ w, isNameRest b) ∧ identifier true = q := by
  induction w with
  | nil => simp [run]
  | cons b w ih =>
    cases h : isNameRest b with
    | false => simp [run, step, h]
    | true => simp [run, step, h, ih]

theorem literal_run {spelling due w : List UInt8} {kind : TokenKind} {q : Progress} :
    (literal spelling kind due).run w = some q ↔
      ∃ rest, due = w ++ rest ∧ literal spelling kind rest = q := by
  induction w generalizing due with
  | nil => simp [run]
  | cons b w ih =>
    cases due with
    | nil => simp [run, step]
    | cons d due =>
      by_cases h : b = d
      · simp [run, step, h, ih]
      · simp [run, step, h, eq_comm]

variable {p q : Progress} {b : UInt8} {w : List UInt8} {kind : TokenKind}

theorem closes_cons (h : p.step b = some q) : p.Closes (b :: w) kind ↔ q.Closes w kind := by
  rw [Closes, Closes, run, h, Option.bind_some]

theorem waits_cons (h : p.step b = some q) : p.Waits (b :: w) ↔ q.Waits w := by
  rw [Waits, Waits, run, h, Option.bind_some]

theorem not_closes_cons (h : p.step b = none) : ¬ p.Closes (b :: w) kind := by
  rintro ⟨q, run_eq, -⟩
  rw [run, h] at run_eq
  cases run_eq

theorem not_waits_cons (h : p.step b = none) : ¬ p.Waits (b :: w) := by
  rintro ⟨q, run_eq, -⟩
  rw [run, h] at run_eq
  cases run_eq

theorem closes_nil : p.Closes [] kind ↔ p.close = some kind := by
  simp [Closes, run]

theorem waits_nil : p.Waits [] ↔ p.close = none := by
  simp [Waits, run]

/-! #### Comments -/

theorem lineComment_terminated_closes :
    (lineComment .terminated).Closes w kind ↔ kind = .comment ∧ w = [] := by
  cases w with
  | nil => simp [closes_nil, close, eq_comm]
  | cons b w => simp [not_closes_cons (p := lineComment .terminated) rfl]

theorem lineComment_step_body {b : UInt8} (h : b ≠ Position.newline) :
    (lineComment .body).step b = some (lineComment .body) := by
  rw [step, LineComment.step]
  · rfl
  · exact h

theorem lineComment_body_closes :
    (lineComment .body).Closes w kind ↔ kind = .comment ∧
      ((∀ b ∈ w, b ≠ Position.newline) ∨ UpTo (· ≠ Position.newline) Position.newline w) := by
  induction w with
  | nil => simp [closes_nil, close, eq_comm]
  | cons b w ih =>
    by_cases h : b = Position.newline
    · subst h
      rw [closes_cons (q := lineComment .terminated) rfl, lineComment_terminated_closes,
        upTo_stop (by simp)]
      simp
    · rw [closes_cons (lineComment_step_body h), ih, upTo_cons h h, List.forall_mem_cons]
      simp [h]

theorem lineComment_body_not_waits : ¬ (lineComment .body).Waits w := by
  induction w with
  | nil => simp [waits_nil, close]
  | cons b w ih =>
    by_cases h : b = Position.newline
    · subst h
      rw [waits_cons (q := lineComment .terminated) rfl]
      cases w with
      | nil => simp [waits_nil, close]
      | cons c w => exact not_waits_cons rfl
    · rwa [waits_cons (lineComment_step_body h)]

theorem blockComment_closed_closes :
    (blockComment .closed).Closes w kind ↔ kind = .comment ∧ w = [] := by
  cases w with
  | nil => simp [closes_nil, close, eq_comm]
  | cons b w => simp [not_closes_cons (p := blockComment .closed) rfl]

theorem blockComment_step_body {b : UInt8} (h : b ≠ 42) :
    (blockComment .body).step b = some (blockComment .body) := by
  rw [step, BlockComment.step]
  · rfl
  · exact h

theorem blockComment_step_star {b : UInt8} (star : b ≠ 42) (slash : b ≠ 47) :
    (blockComment .star).step b = some (blockComment .body) := by
  rw [step, BlockComment.step]
  · rfl
  · exact slash
  · exact star

/-- A comment that is not closed: whether the byte before the rest is a star decides what a slash
does. -/
theorem blockComment_closes :
    ((blockComment .body).Closes w kind ↔ kind = .comment ∧ UpToStarSlash w) ∧
      ((blockComment .star).Closes w kind ↔ kind = .comment ∧ UpToStarSlash (42 :: w)) := by
  induction w with
  | nil => simp [closes_nil, close, not_upToStarSlash_nil, not_upToStarSlash_star]
  | cons b w ih =>
    obtain ⟨body, star⟩ := ih
    constructor
    · by_cases h : b = 42
      · subst h
        rw [closes_cons (q := blockComment .star) rfl, star]
      · rw [closes_cons (blockComment_step_body h), body, upToStarSlash_cons (by simp [h])]
    · by_cases slash : b = 47
      · subst slash
        rw [closes_cons (q := blockComment .closed) rfl, blockComment_closed_closes,
          upToStarSlash_close]
      · rw [upToStarSlash_cons (by simp [slash])]
        by_cases h : b = 42
        · subst h
          rw [closes_cons (q := blockComment .star) rfl, star]
        · rw [closes_cons (blockComment_step_star h slash), body, upToStarSlash_cons (by simp [h])]

theorem blockComment_waits :
    ((blockComment .body).Waits w ↔ ¬ [42, 47] <:+: w) ∧
      ((blockComment .star).Waits w ↔ ¬ [42, 47] <:+: 42 :: w) := by
  induction w with
  | nil => simp [waits_nil, close, List.infix_cons_iff]
  | cons b w ih =>
    obtain ⟨body, star⟩ := ih
    constructor
    · by_cases h : b = 42
      · subst h
        rw [waits_cons (q := blockComment .star) rfl, star]
      · rw [waits_cons (blockComment_step_body h), body, starSlash_infix_cons (by simp [h])]
    · by_cases slash : b = 47
      · subst slash
        rw [waits_cons (q := blockComment .closed) rfl]
        refine iff_of_false ?_ (not_not_intro ⟨[], w, rfl⟩)
        cases w with
        | nil => simp [waits_nil, close]
        | cons c w => exact not_waits_cons rfl
      · rw [starSlash_infix_cons (by simp [slash])]
        by_cases h : b = 42
        · subst h
          rw [waits_cons (q := blockComment .star) rfl, star]
        · rw [waits_cons (blockComment_step_star h slash), body,
            starSlash_infix_cons (by simp [h])]

/-! #### Strings -/

theorem quotation_closed_closes :
    (quotation .closed).Closes w kind ↔ kind = .stringConstant ∧ w = [] := by
  cases w with
  | nil => simp [closes_nil, close, eq_comm]
  | cons b w => simp [not_closes_cons (p := quotation .closed) rfl]

theorem quotation_step_opened {b : UInt8} (quote : b ≠ 34) (line : b ≠ Position.newline) :
    (quotation .opened).step b = some (quotation .opened) := by
  rw [step, Quotation.step]
  · rfl
  · exact quote
  · exact line

theorem quotation_opened_closes :
    (quotation .opened).Closes w kind ↔
      kind = .stringConstant ∧ UpTo (fun b => b ≠ 34 ∧ b ≠ Position.newline) 34 w := by
  induction w with
  | nil => simp [closes_nil, close, not_upTo_nil]
  | cons b w ih =>
    by_cases quote : b = 34
    · subst quote
      rw [closes_cons (q := quotation .closed) rfl, quotation_closed_closes, upTo_stop (by simp)]
    · by_cases line : b = Position.newline
      · subst line
        exact iff_of_false (not_closes_cons rfl) fun h => not_upTo_cons (by simp) (by decide) h.2
      · rw [closes_cons (quotation_step_opened quote line), ih, upTo_cons ⟨quote, line⟩ quote]

theorem quotation_opened_waits :
    (quotation .opened).Waits w ↔ ∀ b ∈ w, b ≠ 34 ∧ b ≠ Position.newline := by
  induction w with
  | nil => simp [waits_nil, close]
  | cons b w ih =>
    rw [List.forall_mem_cons]
    by_cases quote : b = 34
    · subst quote
      rw [waits_cons (q := quotation .closed) rfl]
      refine iff_of_false ?_ (by simp)
      cases w with
      | nil => simp [waits_nil, close]
      | cons c w => exact not_waits_cons rfl
    · by_cases line : b = Position.newline
      · subst line
        exact iff_of_false (not_waits_cons rfl) (by simp)
      · rw [waits_cons (quotation_step_opened quote line), ih]
        simp [quote, line]

/-! #### The first byte -/

/-- Only one byte is taken. -/
def Opens (p : Progress) (b : UInt8) (q : Progress) : Prop :=
  p.close = none ∧ ∀ c, p.step c = if c = b then some q else none

theorem Opens.closes {p q : Progress} {b : UInt8} (h : p.Opens b q) :
    p.Closes w kind ↔ ∃ v, w = b :: v ∧ q.Closes v kind := by
  cases w with
  | nil => simp [closes_nil, h.1]
  | cons c w =>
    by_cases same : c = b
    · subst same
      simp [closes_cons ((h.2 c).trans (if_pos rfl))]
    · simp [not_closes_cons ((h.2 c).trans (if_neg same)), same]

theorem Opens.waits {p q : Progress} {b : UInt8} (h : p.Opens b q) :
    p.Waits w ↔ w = [] ∨ ∃ v, w = b :: v ∧ q.Waits v := by
  cases w with
  | nil => simp [waits_nil, h.1]
  | cons c w =>
    by_cases same : c = b
    · subst same
      simp [waits_cons ((h.2 c).trans (if_pos rfl))]
    · simp [not_waits_cons ((h.2 c).trans (if_neg same)), same]

theorem lineComment_opens : (lineComment .start).Opens 47 (lineComment .slash) := by
  refine ⟨rfl, fun c => ?_⟩
  grind

theorem lineComment_slash_opens : (lineComment .slash).Opens 47 (lineComment .body) := by
  refine ⟨rfl, fun c => ?_⟩
  grind

theorem blockComment_opens : (blockComment .start).Opens 47 (blockComment .slash) := by
  refine ⟨rfl, fun c => ?_⟩
  grind

theorem blockComment_slash_opens : (blockComment .slash).Opens 42 (blockComment .body) := by
  refine ⟨rfl, fun c => ?_⟩
  grind

theorem quotation_opens : (quotation .start).Opens 34 (quotation .opened) := by
  refine ⟨rfl, fun c => ?_⟩
  grind

/-! #### Automata that have read nothing -/

theorem whitespace_closes : (whitespace false).Closes w kind ↔ kind = .whitespace ∧ IsBlankRun w := by
  cases w with
  | nil => simp [closes_nil, close, IsBlankRun]
  | cons b w =>
    simp only [Closes, whitespace_run, List.isEmpty_cons, Bool.not_false, Bool.or_true]
    constructor
    · rintro ⟨-, ⟨all, rfl⟩, closed⟩
      exact ⟨(Option.some.inj closed).symm, List.cons_ne_nil b w, all⟩
    · rintro ⟨rfl, -, all⟩
      exact ⟨_, ⟨all, rfl⟩, rfl⟩

theorem integer_closes : (integer false).Closes w kind ↔ kind = .integerConstant ∧ IsNumber w := by
  cases w with
  | nil => simp [closes_nil, close, IsNumber]
  | cons b w =>
    simp only [Closes, integer_run, List.isEmpty_cons, Bool.not_false, Bool.or_true]
    constructor
    · rintro ⟨-, ⟨all, rfl⟩, closed⟩
      exact ⟨(Option.some.inj closed).symm, List.cons_ne_nil b w, all⟩
    · rintro ⟨rfl, -, all⟩
      exact ⟨_, ⟨all, rfl⟩, rfl⟩

theorem identifier_closes : (identifier false).Closes w kind ↔ kind = .identifier ∧ IsName w := by
  cases w with
  | nil => simp [closes_nil, close, IsName]
  | cons b w =>
    by_cases h : isNameStart b
    · rw [closes_cons (q := identifier true) (by rw [step, if_pos h])]
      simp only [Closes, identifier_run]
      constructor
      · rintro ⟨-, ⟨all, rfl⟩, closed⟩
        exact ⟨(Option.some.inj closed).symm, b, w, rfl, h, all⟩
      · rintro ⟨rfl, first, rest, same, -, all⟩
        obtain ⟨rfl, rfl⟩ := List.cons.inj same
        exact ⟨_, ⟨all, rfl⟩, rfl⟩
    · refine iff_of_false (not_closes_cons (by rw [step, if_neg h])) ?_
      rintro ⟨-, first, rest, same, start, -⟩
      obtain ⟨rfl, rfl⟩ := List.cons.inj same
      exact h start

theorem lineComment_closes :
    (lineComment .start).Closes w kind ↔ kind = .comment ∧ IsLineComment w := by
  rw [lineComment_opens.closes]
  simp only [lineComment_slash_opens.closes, lineComment_body_closes]
  constructor
  · rintro ⟨-, rfl, v, rfl, rfl, all | ⟨body, all, rfl⟩⟩
    · exact ⟨rfl, v, all, .inl rfl⟩
    · exact ⟨rfl, body, all, .inr rfl⟩
  · rintro ⟨rfl, body, all, rfl | rfl⟩
    · exact ⟨_, rfl, body, rfl, rfl, .inl all⟩
    · exact ⟨_, rfl, _, rfl, rfl, .inr ⟨body, all, rfl⟩⟩

theorem blockComment_start_closes :
    (blockComment .start).Closes w kind ↔ kind = .comment ∧ IsBlockComment w := by
  rw [blockComment_opens.closes]
  simp only [blockComment_slash_opens.closes, blockComment_closes.1]
  constructor
  · rintro ⟨-, rfl, -, rfl, rfl, body, rfl, first⟩
    exact ⟨rfl, body, rfl, first⟩
  · rintro ⟨rfl, body, rfl, first⟩
    exact ⟨_, rfl, _, rfl, rfl, body, rfl, first⟩

theorem quotation_closes :
    (quotation .start).Closes w kind ↔ kind = .stringConstant ∧ IsQuotation w := by
  rw [quotation_opens.closes]
  simp only [quotation_opened_closes]
  constructor
  · rintro ⟨-, rfl, rfl, body, all, rfl⟩
    exact ⟨rfl, body, all, rfl⟩
  · rintro ⟨rfl, body, all, rfl⟩
    exact ⟨_, rfl, rfl, body, all, rfl⟩

theorem literal_closes {spelling due : List UInt8} {k : TokenKind} :
    (literal spelling k due).Closes w kind ↔ kind = k ∧ w = due := by
  simp only [Closes, literal_run]
  constructor
  · rintro ⟨-, ⟨rest, rfl, rfl⟩, closed⟩
    cases rest with
    | nil => exact ⟨(Option.some.inj closed).symm, (List.append_nil w).symm⟩
    | cons b rest => cases closed
  · rintro ⟨rfl, rfl⟩
    exact ⟨_, ⟨[], (List.append_nil w).symm, rfl⟩, rfl⟩

theorem literal_waits {spelling due : List UInt8} {k : TokenKind} :
    (literal spelling k due).Waits w ↔ ∃ b rest, due = w ++ b :: rest := by
  simp only [Waits, literal_run]
  constructor
  · rintro ⟨-, ⟨rest, rfl, rfl⟩, closed⟩
    cases rest with
    | nil => cases closed
    | cons b rest => exact ⟨b, rest, rfl⟩
  · rintro ⟨b, rest, rfl⟩
    exact ⟨_, ⟨b :: rest, rfl, rfl⟩, rfl⟩

/-! #### Automata that are in without closing -/

theorem whitespace_not_waits {b : UInt8} : ¬ (whitespace false).Waits (b :: w) := by
  rintro ⟨q, run_eq, opened⟩
  obtain ⟨-, rfl⟩ := whitespace_run.1 run_eq
  cases opened

theorem integer_not_waits {b : UInt8} : ¬ (integer false).Waits (b :: w) := by
  rintro ⟨q, run_eq, opened⟩
  obtain ⟨-, rfl⟩ := integer_run.1 run_eq
  cases opened

theorem identifier_not_waits {b : UInt8} : ¬ (identifier false).Waits (b :: w) := by
  by_cases h : isNameStart b
  · rw [waits_cons (q := identifier true) (by rw [step, if_pos h])]
    rintro ⟨q, run_eq, opened⟩
    obtain ⟨-, rfl⟩ := identifier_run.1 run_eq
    cases opened
  · exact not_waits_cons (by rw [step, if_neg h])

end Progress

/-! ### The roster -/

/-- A spelling of a reserved word is a name as far as it goes. -/
theorem Keyword.isName_of_spelling {k : Keyword} {b : UInt8} {w rest : List UInt8}
    (h : Utf8.bytes k.text = b :: w ++ rest) : IsName (b :: w) := by
  have letters := k.letters
  rw [h] at letters
  refine ⟨b, w, rfl, letters b (by simp), fun c hc => ?_⟩
  rw [isNameRest, letters c (by simp [hc]), Bool.true_or]

namespace Automaton

theorem mem_standard {a : Automaton} :
    a ∈ standard.map reset ↔
      a = whitespace ∨ a = lineComment ∨ a = blockComment ∨ a = identifier ∨ a = integer ∨
        a = quotation ∨ (∃ k, a = keyword k) ∨ ∃ s, a = symbol s := by
  have unread : standard.map reset = standard := by decide
  rw [unread]
  simp [standard, Keyword.mem_all, Symbol.mem_all, eq_comm]

/-- The roster closes over the lexemes. -/
theorem standard_closes {w : List UInt8} {kind : TokenKind} :
    (∃ a ∈ standard.map reset, a.progress.Closes w kind) ↔ Lexeme kind w := by
  simp only [mem_standard]
  constructor
  · rintro ⟨-, rfl | rfl | rfl | rfl | rfl | rfl | ⟨k, rfl⟩ | ⟨s, rfl⟩, closed⟩
    · obtain ⟨rfl, blanks⟩ := Progress.whitespace_closes.1 closed
      exact blanks
    · obtain ⟨rfl, comment⟩ := Progress.lineComment_closes.1 closed
      exact .inl comment
    · obtain ⟨rfl, comment⟩ := Progress.blockComment_start_closes.1 closed
      exact .inr comment
    · obtain ⟨rfl, name⟩ := Progress.identifier_closes.1 closed
      exact name
    · obtain ⟨rfl, number⟩ := Progress.integer_closes.1 closed
      exact number
    · obtain ⟨rfl, quoted⟩ := Progress.quotation_closes.1 closed
      exact quoted
    · obtain ⟨rfl, spelled⟩ := Progress.literal_closes.1 closed
      exact spelled
    · obtain ⟨rfl, spelled⟩ := Progress.literal_closes.1 closed
      exact spelled
  · intro h
    cases kind with
    | whitespace => exact ⟨whitespace, by simp, Progress.whitespace_closes.2 ⟨rfl, h⟩⟩
    | comment =>
      rcases h with line | block
      · exact ⟨lineComment, by simp, Progress.lineComment_closes.2 ⟨rfl, line⟩⟩
      · exact ⟨blockComment, by simp, Progress.blockComment_start_closes.2 ⟨rfl, block⟩⟩
    | identifier => exact ⟨identifier, by simp, Progress.identifier_closes.2 ⟨rfl, h⟩⟩
    | integerConstant => exact ⟨integer, by simp, Progress.integer_closes.2 ⟨rfl, h⟩⟩
    | stringConstant => exact ⟨quotation, by simp, Progress.quotation_closes.2 ⟨rfl, h⟩⟩
    | keyword k => exact ⟨keyword k, by simp, Progress.literal_closes.2 ⟨rfl, h⟩⟩
    | symbol s => exact ⟨symbol s, by simp, Progress.literal_closes.2 ⟨rfl, h⟩⟩

/-- An automaton that is in without closing has read a lexeme of another class, or bytes that wait
for a quote or for a star and slash. -/
theorem standard_waits {a : Automaton} {w : List UInt8} (member : a ∈ standard.map reset)
    (begun : w ≠ []) (waits : a.progress.Waits w) :
    (∃ kind, Lexeme kind w) ∨ OpenQuotation w ∨ OpenBlockComment w := by
  have slash : Lexeme (.symbol .slash) [47] := by rw [Lexeme]; decide
  obtain ⟨b, w, rfl⟩ := List.exists_cons_of_ne_nil begun
  rcases mem_standard.1 member with rfl | rfl | rfl | rfl | rfl | rfl | ⟨k, rfl⟩ | ⟨s, rfl⟩
  · exact absurd waits Progress.whitespace_not_waits
  · rcases Progress.lineComment_opens.waits.1 waits with none | ⟨v, same, waits⟩
    · cases none
    · obtain ⟨rfl, rfl⟩ := List.cons.inj same
      rcases Progress.lineComment_slash_opens.waits.1 waits with rfl | ⟨v, rfl, waits⟩
      · exact .inl ⟨_, slash⟩
      · exact absurd waits Progress.lineComment_body_not_waits
  · rcases Progress.blockComment_opens.waits.1 waits with none | ⟨v, same, waits⟩
    · cases none
    · obtain ⟨rfl, rfl⟩ := List.cons.inj same
      rcases Progress.blockComment_slash_opens.waits.1 waits with rfl | ⟨v, rfl, waits⟩
      · exact .inl ⟨_, slash⟩
      · exact .inr (.inr ⟨v, rfl, Progress.blockComment_waits.1.1 waits⟩)
  · exact absurd waits Progress.identifier_not_waits
  · exact absurd waits Progress.integer_not_waits
  · rcases Progress.quotation_opens.waits.1 waits with none | ⟨v, same, waits⟩
    · cases none
    · exact .inr (.inl ⟨v, Progress.quotation_opened_waits.1 waits, same⟩)
  · obtain ⟨c, rest, same⟩ := Progress.literal_waits.1 waits
    exact .inl ⟨.identifier, Keyword.isName_of_spelling same⟩
  · obtain ⟨c, rest, same⟩ := Progress.literal_waits.1 waits
    obtain ⟨d, spelling, -⟩ := s.spelling_eq
    rw [spelling] at same
    simp at same

end Automaton

end JackCompiler
