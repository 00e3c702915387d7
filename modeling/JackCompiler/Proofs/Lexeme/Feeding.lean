import JackCompiler.Proofs.Lexeme.Rounds
/-!
# One automaton, fed byte by byte

An automaton that is fed takes some bytes and refuses others, and what it has taken is all that it
knows. It takes a byte exactly if the bytes taken and this one open a lexeme of its class, so it
never waits for something that cannot come, and it closes exactly over the lexemes. Each class is
told without automata, and the roster has one automaton for each.

        offered   /  x  *  *  x  *  /  /
        taken     /     *  *  x  *  /        the comment is whole, and nothing else is taken
-/

namespace JackCompiler

/-! ### Bytes offered and bytes taken -/

namespace Progress

/-- Every stage of every automaton is on the way to a lexeme. -/
theorem exists_closes (p : Progress) : ∃ v kind, p.Closes v kind := by
  cases p with
  | whitespace begun => cases begun <;> exact ⟨[32], _, _, rfl, rfl⟩
  | lineComment stage =>
    cases stage with
    | start => exact ⟨[47, 47], _, _, rfl, rfl⟩
    | slash => exact ⟨[47], _, _, rfl, rfl⟩
    | body => exact ⟨[], _, _, rfl, rfl⟩
    | terminated => exact ⟨[], _, _, rfl, rfl⟩
  | blockComment stage =>
    cases stage with
    | start => exact ⟨[47, 42, 42, 47], _, _, rfl, rfl⟩
    | slash => exact ⟨[42, 42, 47], _, _, rfl, rfl⟩
    | body => exact ⟨[42, 47], _, _, rfl, rfl⟩
    | star => exact ⟨[47], _, _, rfl, rfl⟩
    | closed => exact ⟨[], _, _, rfl, rfl⟩
  | identifier begun => cases begun <;> exact ⟨[95], _, _, rfl, rfl⟩
  | integer begun => cases begun <;> exact ⟨[48], _, _, rfl, rfl⟩
  | quotation stage =>
    cases stage with
    | start => exact ⟨[34, 34], _, _, rfl, rfl⟩
    | opened => exact ⟨[34], _, _, rfl, rfl⟩
    | closed => exact ⟨[], _, _, rfl, rfl⟩
  | literal spelling kind due => exact ⟨due, kind, literal_closes.2 ⟨rfl, rfl⟩⟩

/-- A byte that is taken leaves the start where it was. -/
theorem restart_step {p q : Progress} {b : UInt8} (h : p.step b = some q) :
    q.restart = p.restart := by
  cases p with
  | whitespace begun =>
    simp only [step, Option.ite_none_right_eq_some, Option.some.injEq] at h
    simp [← h.2, restart]
  | integer begun =>
    simp only [step, Option.ite_none_right_eq_some, Option.some.injEq] at h
    simp [← h.2, restart]
  | identifier begun =>
    cases begun <;> simp only [step, Option.ite_none_right_eq_some, Option.some.injEq] at h <;>
      simp [← h.2, restart]
  | literal spelling kind due =>
    cases due with
    | nil => cases h
    | cons d due =>
      simp only [step, Option.ite_none_right_eq_some, Option.some.injEq] at h
      simp [← h.2, restart]
  | lineComment stage => obtain ⟨_, -, rfl⟩ := Option.map_eq_some_iff.1 h; rfl
  | blockComment stage => obtain ⟨_, -, rfl⟩ := Option.map_eq_some_iff.1 h; rfl
  | quotation stage => obtain ⟨_, -, rfl⟩ := Option.map_eq_some_iff.1 h; rfl

end Progress

namespace Automaton

variable {a : Automaton} {bytes w : List UInt8} {b : UInt8}

/-- Bytes are taken exactly if they can be completed to bytes over which the automaton closes. -/
theorem takes_iff_closes : a.Takes w ↔ ∃ v kind, a.progress.Closes (w ++ v) kind := by
  constructor
  · rintro ⟨p, run_eq⟩
    obtain ⟨v, kind, q, rest_eq, closed⟩ := p.exists_closes
    exact ⟨v, kind, q, by rw [Progress.run_append, run_eq]; exact rest_eq, closed⟩
  · rintro ⟨v, kind, q, run_eq, -⟩
    have taken : a.Takes (w ++ v) := ⟨q, run_eq⟩
    exact taken.of_append

theorem after_concat (a : Automaton) (w : List UInt8) (b : UInt8) :
    a.after (w ++ [b]) = (a.after w).bind (·.feed b) := by
  induction w generalizing a with
  | nil =>
    rw [List.nil_append, after_cons, after_nil, Option.bind_some]
    cases a.feed b <;> rfl
  | cons c w ih =>
    rw [List.cons_append, after_cons, after_cons]
    cases a.feed c with
    | none => rfl
    | some a' => exact ih a'

/-- An automaton is behind the bytes it has taken. -/
theorem takes_iff_after : a.Takes w ↔ ∃ a', a.after w = some a' := by
  simp [Takes, after, Option.map_eq_some_iff]

theorem offer_of_feed {a' : Automaton} (h : a.feed b = some a') : a.offer b = (true, a') := by
  rw [offer, h]

theorem offer_of_refused (h : a.feed b = none) : a.offer b = (false, a) := by
  rw [offer, h]

theorem offerAll_concat (a : Automaton) (bytes : List UInt8) (b : UInt8) :
    a.offerAll (bytes ++ [b]) = ((a.offerAll bytes).1 ++ [((a.offerAll bytes).2.offer b).1],
      ((a.offerAll bytes).2.offer b).2) := by
  simp [offerAll, List.foldl_append]

theorem offerAll_length (a : Automaton) (bytes : List UInt8) :
    (a.offerAll bytes).1.length = bytes.length := by
  induction bytes using List.reverseRecOn with
  | nil => rfl
  | append_singleton bytes b ih => simp [offerAll_concat, ih]

/-- Of the bytes offered those that are taken. -/
def taken (a : Automaton) (bytes : List UInt8) : List UInt8 :=
  ((bytes.zip (a.offerAll bytes).1).filter (·.2)).map (·.1)

theorem taken_concat (a : Automaton) (bytes : List UInt8) (b : UInt8) :
    a.taken (bytes ++ [b]) =
      a.taken bytes ++ if ((a.offerAll bytes).2.offer b).1 then [b] else [] := by
  rw [taken, offerAll_concat, List.zip_append (a.offerAll_length bytes).symm]
  cases ((a.offerAll bytes).2.offer b).1 <;> simp [taken]

/-- What was offered and refused leaves no trace. -/
theorem after_taken (a : Automaton) (bytes : List UInt8) :
    a.after (a.taken bytes) = some (a.offerAll bytes).2 := by
  induction bytes using List.reverseRecOn with
  | nil => rfl
  | append_singleton bytes b ih =>
    rw [taken_concat, offerAll_concat]
    cases fed : (a.offerAll bytes).2.feed b with
    | none => simpa [offer_of_refused fed] using ih
    | some a' => simpa [offer_of_feed fed, after_concat, ih] using fed

theorem offerAll_consumed (a : Automaton) (bytes : List UInt8) :
    (a.offerAll bytes).2.consumed = a.consumed + (a.taken bytes).length := by
  have behind := a.after_taken bytes
  obtain ⟨p, -, same⟩ := Option.map_eq_some_iff.1 behind
  rw [← same]

/-- The automaton closes over what it has taken. -/
theorem offerAll_close (a : Automaton) (bytes : List UInt8) (kind : TokenKind) :
    (a.offerAll bytes).2.close = some kind ↔ a.progress.Closes (a.taken bytes) kind := by
  obtain ⟨p, run_eq, same⟩ := Option.map_eq_some_iff.1 (a.after_taken bytes)
  rw [← same, Progress.Closes, run_eq]
  simp [close]

/-- A byte is taken exactly if the bytes taken and this one can be completed. -/
theorem offerAll_takes (a : Automaton) (bytes : List UInt8) (b : UInt8) :
    ((a.offerAll bytes).2.offer b).1 = true ↔ a.Takes (a.taken bytes ++ [b]) := by
  rw [takes_iff_after, after_concat, after_taken, Option.bind_some]
  cases fed : (a.offerAll bytes).2.feed b with
  | none => simp [offer_of_refused fed]
  | some a' => simp [offer_of_feed fed]

theorem offer_refused (h : (a.offer b).1 = false) : (a.offer b).2 = a := by
  cases fed : a.feed b with
  | none => rw [offer_of_refused fed]
  | some a' => simp [offer_of_feed fed] at h

/-- A reset undoes all that was fed. -/
theorem reset_offerAll (a : Automaton) (bytes : List UInt8) :
    (a.offerAll bytes).2.reset = a.reset := by
  induction bytes using List.reverseRecOn with
  | nil => rfl
  | append_singleton bytes b ih =>
    rw [offerAll_concat, ← ih]
    cases fed : (a.offerAll bytes).2.feed b with
    | none => rw [offer_of_refused fed]
    | some a' =>
      rw [offer_of_feed fed]
      obtain ⟨q, stepped, rfl⟩ := Option.map_eq_some_iff.1 fed
      simp only [reset, Progress.restart_step stepped]

end Automaton

/-! ### Where comments end -/

/-- The bytes end with the first star and slash that starts at or behind the third byte. -/
def EndsAtStarSlash (w : List UInt8) : Prop :=
  ∃ i, 2 ≤ i ∧ w.drop i = [42, 47] ∧ ∀ j, 2 ≤ j → j < i → ¬ [42, 47] <+: w.drop j

/-- A star and slash with a star behind it starts in front of that star. -/
theorem starSlash_infix_concat {body : List UInt8} : [42, 47] <:+: body ++ [42] ↔
    ∃ k < body.length, [42, 47] <+: (body ++ [42, 47]).drop k := by
  induction body with
  | nil => simp [List.infix_cons_iff]
  | cons b body ih =>
    have head : (body ++ [42]).head? = (body ++ [42, 47]).head? := by cases body <;> rfl
    rw [List.cons_append, List.infix_cons_iff, ih]
    constructor
    · rintro (front | ⟨k, inside, there⟩)
      · refine ⟨0, by simp, ?_⟩
        obtain ⟨rfl, slash⟩ := List.cons_prefix_cons.1 front
        rw [List.drop_zero, List.cons_append, List.cons_prefix_cons]
        refine ⟨rfl, ?_⟩
        cases body <;> simp_all
      · exact ⟨k + 1, by simpa using inside, there⟩
    · rintro ⟨k, inside, there⟩
      cases k with
      | zero =>
        rw [List.drop_zero, List.cons_append, List.cons_prefix_cons] at there
        obtain ⟨rfl, slash⟩ := there
        left
        rw [List.cons_prefix_cons]
        refine ⟨rfl, ?_⟩
        cases body <;> simp_all
      | succ k => exact .inr ⟨k, by simpa using inside, there⟩

/-- The stars and slashes in front of the end do not matter, nor does the star of the opening. -/
theorem isBlockComment_iff {w : List UInt8} :
    IsBlockComment w ↔ [47, 42] <+: w ∧ EndsAtStarSlash w := by
  constructor
  · rintro ⟨body, rfl, first⟩
    refine ⟨⟨body ++ [42, 47], rfl⟩, body.length + 2, by omega, by simp, ?_⟩
    intro j behind before there
    obtain ⟨k, rfl⟩ := Nat.exists_eq_add_of_le' behind
    exact first (starSlash_infix_concat.2 ⟨k, by omega, there⟩)
  · rintro ⟨⟨rest, rfl⟩, i, behind, ends, first⟩
    obtain ⟨k, rfl⟩ := Nat.exists_eq_add_of_le' behind
    have ends : rest.drop k = [42, 47] := ends
    refine ⟨rest.take k, ?_, ?_⟩
    · rw [← ends]
      simp
    · rw [starSlash_infix_concat, ← ends, List.take_append_drop]
      rintro ⟨m, inside, there⟩
      rw [List.length_take] at inside
      rw [ends] at there
      exact first (m + 2) (by omega) (by omega) there

/-- A newline is the last byte of a comment behind two slashes, if there is one. -/
theorem isLineComment_iff {body : List UInt8} :
    IsLineComment (47 :: 47 :: body) ↔ Position.newline ∉ body.dropLast := by
  constructor
  · rintro ⟨line, free, same | same⟩ newline
    · obtain rfl : body = line := by simpa using same
      exact free _ (List.mem_of_mem_dropLast newline) rfl
    · obtain rfl : body = line ++ [Position.newline] := by simpa using same
      rw [List.dropLast_concat] at newline
      exact free _ newline rfl
  · intro inside
    rcases List.eq_nil_or_concat' body with rfl | ⟨line, b, rfl⟩
    · exact ⟨[], by simp, .inl rfl⟩
    · rw [List.dropLast_concat] at inside
      refine isLineComment_concat (fun c hc newline => inside ?_) b
      rwa [← newline]

/-! ### The classes -/

/-- The classes of lexemes. There are two of comments, and one for every fixed spelling. -/
inductive LexemeClass
  | blanks | lineComment | blockComment | name | number | quotation
  | keyword (k : Keyword)
  | symbol (s : Symbol)
  deriving DecidableEq

namespace LexemeClass

/-- The kind of the lexemes of a class. -/
def kind : LexemeClass → TokenKind
  | blanks => .whitespace
  | lineComment | blockComment => .comment
  | name => .identifier
  | number => .integerConstant
  | quotation => .stringConstant
  | keyword k => .keyword k
  | symbol s => .symbol s

/-- The lexemes of a class. -/
def Contains : LexemeClass → List UInt8 → Prop
  | blanks, w => IsBlankRun w
  | lineComment, w => IsLineComment w
  | blockComment, w => IsBlockComment w
  | name, w => IsName w
  | number, w => IsNumber w
  | quotation, w => IsQuotation w
  | keyword k, w => w = Utf8.bytes k.text
  | symbol s, w => w = Utf8.bytes s.text

/-- The automaton of a class. -/
def automaton : LexemeClass → Automaton
  | blanks => .whitespace
  | lineComment => .lineComment
  | blockComment => .blockComment
  | name => .identifier
  | number => .integer
  | quotation => .quotation
  | keyword k => .keyword k
  | symbol s => .symbol s

/-- Every class. -/
def all : List LexemeClass :=
  [blanks, lineComment, blockComment, name, number, quotation] ++
    Keyword.all.map keyword ++ Symbol.all.map symbol

variable {c : LexemeClass} {w : List UInt8}

/-- The automaton of a class closes over its lexemes. -/
theorem automaton_closes {kind : TokenKind} :
    c.automaton.progress.Closes w kind ↔ kind = c.kind ∧ c.Contains w := by
  cases c with
  | blanks => exact Progress.whitespace_closes
  | lineComment => exact Progress.lineComment_closes
  | blockComment => exact Progress.blockComment_start_closes
  | name => exact Progress.identifier_closes
  | number => exact Progress.integer_closes
  | quotation => exact Progress.quotation_closes
  | keyword k => exact Progress.literal_closes
  | symbol s => exact Progress.literal_closes

/-- It takes what its lexemes begin with. -/
theorem automaton_takes : c.automaton.Takes w ↔ ∃ v, c.Contains (w ++ v) := by
  rw [Automaton.takes_iff_closes]
  constructor
  · rintro ⟨v, kind, closes⟩
    exact ⟨v, (automaton_closes.1 closes).2⟩
  · rintro ⟨v, lexeme⟩
    exact ⟨v, c.kind, automaton_closes.2 ⟨rfl, lexeme⟩⟩

theorem Contains.lexeme (h : c.Contains w) : Lexeme c.kind w := by
  cases c with
  | lineComment => exact .inl h
  | blockComment => exact .inr h
  | _ => exact h

theorem reset_automaton (c : LexemeClass) : c.automaton.reset = c.automaton := by
  cases c <;> rfl

/-- Behind its slashes a comment is whole, and it goes on up to the first newline. -/
theorem lineComment_goes_on {body v : List UInt8} (begun : IsLineComment (47 :: 47 :: body ++ v)) :
    IsLineComment (47 :: 47 :: body) ∧
      ∀ b, (∃ u, IsLineComment (47 :: 47 :: body ++ b :: u)) ↔
        Position.newline ∉ 47 :: 47 :: body := by
  have slashes : Position.newline ∈ 47 :: 47 :: body ↔ Position.newline ∈ body := by
    simp [Position.newline]
  have inside : Position.newline ∉ (body ++ v).dropLast := isLineComment_iff.1 begun
  refine ⟨isLineComment_iff.2 fun newline => inside ?_, fun b => ?_⟩
  · rcases List.eq_nil_or_concat' v with rfl | ⟨u, c, rfl⟩
    · rwa [List.append_nil]
    · rw [← List.append_assoc, List.dropLast_concat]
      exact List.mem_append_left u (List.mem_of_mem_dropLast newline)
  · rw [slashes]
    constructor
    · rintro ⟨u, longer⟩ newline
      have inside : Position.newline ∉ (body ++ b :: u).dropLast := isLineComment_iff.1 longer
      rw [List.dropLast_append_of_ne_nil (List.cons_ne_nil b u)] at inside
      exact inside (List.mem_append_left _ newline)
    · intro free
      have one : IsLineComment (47 :: 47 :: (body ++ [b])) := by
        rwa [isLineComment_iff, List.dropLast_concat]
      exact ⟨[], one⟩

/-- **Every automaton of the roster recognizes the lexemes of its class.** Whatever was fed before,
after a reset it takes a byte exactly if the bytes taken and this one open a lexeme; a byte that is
refused changes nothing; it counts the bytes taken; and it closes exactly over the lexemes. So a
comment between slashes and stars ends with the first star and slash that starts behind its opening,
a string has neither quotes nor newlines between its quotes, and a comment behind two slashes is
whole at once and goes on up to its first newline. -/
theorem automaton_recognizes :
    Automaton.standard = all.map automaton ∧
    ∀ (c : LexemeClass) (before bytes : List UInt8),
      let fresh := (c.automaton.offerAll before).2.reset
      let fed := (fresh.offerAll bytes).2
      let taken := fresh.taken bytes
      (∀ b, (fed.offer b).1 = true ↔ ∃ v, c.Contains (taken ++ b :: v)) ∧
      (∀ b, (fed.offer b).1 = false → (fed.offer b).2 = fed) ∧
      fed.consumed = taken.length ∧
      (∀ kind, fed.close = some kind ↔ kind = c.kind ∧ taken ≠ [] ∧ c.Contains taken) ∧
      (c = blockComment →
        (fed.close.isSome ↔ [47, 42] <+: taken ∧ EndsAtStarSlash taken)) ∧
      (c = quotation → fed.close.isSome →
        ∃ body, taken = 34 :: body ++ [34] ∧ ∀ b ∈ body, b ≠ 34 ∧ b ≠ Position.newline) ∧
      (c = lineComment → [47, 47] <+: taken →
        fed.close.isSome ∧ ∀ b, (fed.offer b).1 = true ↔ Position.newline ∉ taken) := by
  refine ⟨by decide, fun c before bytes => ?_⟩
  simp only [Automaton.reset_offerAll, reset_automaton]
  have takes (b : UInt8) : ((c.automaton.offerAll bytes).2.offer b).1 = true ↔
      ∃ v, c.Contains (c.automaton.taken bytes ++ b :: v) := by
    simp [Automaton.offerAll_takes, automaton_takes]
  have closes (kind : TokenKind) : (c.automaton.offerAll bytes).2.close = some kind ↔
      kind = c.kind ∧ c.Contains (c.automaton.taken bytes) := by
    rw [Automaton.offerAll_close, automaton_closes]
  have whole : (c.automaton.offerAll bytes).2.close.isSome ↔
      c.Contains (c.automaton.taken bytes) := by
    simp [Option.isSome_iff_exists, closes]
  refine ⟨takes, fun b => Automaton.offer_refused, ?_, fun kind => ?_, ?_, ?_, ?_⟩
  · rw [Automaton.offerAll_consumed]
    cases c <;> exact Nat.zero_add _
  · rw [closes]
    exact and_congr_right fun _ => (and_iff_right_of_imp fun lexeme => lexeme.lexeme.ne_nil).symm
  · rintro rfl
    rw [whole]
    exact isBlockComment_iff
  · rintro rfl closed
    obtain ⟨body, free, same⟩ := whole.1 closed
    exact ⟨body, same, free⟩
  · rintro rfl ⟨body, same⟩
    have reached := Automaton.after_taken lineComment.automaton bytes
    have begun := automaton_takes.1 (Automaton.takes_iff_after.2 ⟨_, reached⟩)
    rw [← same] at begun takes whole ⊢
    obtain ⟨v, begun⟩ := begun
    obtain ⟨complete, goes_on⟩ := lineComment_goes_on begun
    exact ⟨whole.2 complete, fun b => (takes b).trans (goes_on b)⟩

example : blockComment.automaton.taken [47, 120, 42, 42, 120, 42, 47, 47] =
    [47, 42, 42, 120, 42, 47] := by
  decide

end LexemeClass

end JackCompiler
