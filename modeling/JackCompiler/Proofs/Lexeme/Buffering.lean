import JackCompiler.Lexeme.TokenBuffer
import JackCompiler.Proofs.Lexeme.Lossless
/-!
# A buffer answers like a list

A buffer scans as little as it can, and still its answers are those of a reader that has the list of
all significant tokens in front of it, with the error of the scanner behind them. The reader stands
at a place of that list, and the place is the number of tokens asked to be taken. What it answers
depends on the place alone: what was asked in between, and how often, leaves no trace.

        requests   peek   consume   peek   lookahead   consume   consume
        place       0        0       1         1          1         2
        answer      t₀      t₀       t₁        t₁         t₁      the error, or the end

The reader is read off a buffer: in front of it are the token held and those that the scanner has
still to yield, and behind an error there are none.
-/

namespace JackCompiler

/-! ### What a scanner yields -/

namespace Scanner

variable {s rest : Scanner} {t : Token} {e : CompileError}

/-- A token takes at least one byte. -/
theorem next?_shorter (h : s.next? = some (.ok t, rest)) :
    rest.unread.length < s.unread.length := by
  unfold next? at h
  split at h
  · cases h
  · next more =>
    dsimp only at h
    split at h
    · next kind won =>
      cases h
      have bytes : s.round.length ≠ 0 := by
        intro none
        rw [Round.winner, if_pos none] at won
        cases won
      have unread : s.unread ≠ [] := by
        intro empty
        simp [empty] at more
      have length := List.length_pos_iff.2 unread
      simp only [take, List.length_drop]
      omega
    · cases h

/-- Nothing is yielded at the end of a text. -/
theorem next?_of_length_le_zero (h : s.unread.length ≤ 0) : s.next? = none := by
  have empty : s.unread = [] := List.length_eq_zero_iff.1 (Nat.le_zero.1 h)
  simp [next?, empty]

/-- More rounds than bytes yield nothing more. -/
theorem runFor_congr {n m : Nat} (hn : s.unread.length ≤ n) (hm : s.unread.length ≤ m) :
    runFor n s [] = runFor m s [] := by
  induction n generalizing s m with
  | zero => cases m <;> simp [runFor, next?_of_length_le_zero hn]
  | succ n ih =>
    cases m with
    | zero => simp [runFor, next?_of_length_le_zero hm]
    | succ m =>
      rw [runFor, runFor]
      split
      · rfl
      · rfl
      · next t rest found =>
        have shorter := next?_shorter found
        rw [runFor_done n, runFor_done m, ih (m := m) (by omega) (by omega)]

/-- What a scanner yields, it yields one by one. -/
theorem run_eq (s : Scanner) : s.run =
    match s.next? with
    | none => ⟨[], none, s⟩
    | some (.error e, rest) => ⟨[], some e, rest⟩
    | some (.ok t, rest) => { rest.run with tokens := t :: rest.run.tokens } := by
  rw [run, runFor_congr (le_refl _) (Nat.le_succ _), runFor]
  rcases found : s.next? with _ | ⟨e | t, rest⟩
  · rfl
  · rfl
  · have enough := (next?_shorter found).le
    simp only
    rw [runFor_done, runFor_congr enough (le_refl _)]
    rfl

/-- The significant tokens that a scanner has still to yield. -/
def ahead (s : Scanner) : List Token := Reader.significant s.run.tokens

/-- What is said of the next significant token is what the scanner yields. -/
inductive Finds (s : Scanner) : Except CompileError (Option Token) × Scanner → Prop
  | token {t : Token} {rest : Scanner} (ahead : s.ahead = t :: rest.ahead)
      (error : s.run.error = rest.run.error) : Finds s (.ok (some t), rest)
  | nothing {rest : Scanner} (ahead : s.ahead = rest.ahead) (ended : rest.ahead = [])
      (error : s.run.error = rest.run.error) (sound : rest.run.error = none) :
      Finds s (.ok none, rest)
  | failure {e : CompileError} {rest : Scanner} (ended : s.ahead = [])
      (error : s.run.error = some e) : Finds s (.error e, rest)

/-- Trivia are passed over. -/
theorem Finds.of_trivia {found : Except CompileError (Option Token) × Scanner}
    (ahead : s.ahead = rest.ahead) (error : s.run.error = rest.run.error) (h : rest.Finds found) :
    s.Finds found := by
  cases h with
  | token ahead' error' => exact .token (ahead.trans ahead') (error.trans error')
  | nothing ahead' ended error' sound =>
    exact .nothing (ahead.trans ahead') ended (error.trans error') sound
  | failure ended error' => exact .failure (ahead.trans ended) (error.trans error')

/-- At the end of the text there is nothing. -/
theorem finds_of_done (done : s.next? = none) : s.Finds (.ok none, s) := by
  have run : s.run = ⟨[], none, s⟩ := by rw [run_eq, done]
  exact .nothing rfl (by rw [ahead, run]; rfl) rfl (by rw [run])

theorem significantWithin_finds {rounds : Nat} (enough : s.unread.length ≤ rounds) :
    s.Finds (significantWithin rounds s) := by
  induction rounds generalizing s with
  | zero => exact finds_of_done (next?_of_length_le_zero enough)
  | succ rounds ih =>
    have run := run_eq s
    rcases found : s.next? with _ | ⟨e | t, rest⟩ <;> rw [found] at run
    · simp only [significantWithin, found]
      exact finds_of_done found
    · simp only [significantWithin, found]
      exact .failure (by rw [ahead, run]; rfl) (by rw [run])
    · have error : s.run.error = rest.run.error := by rw [run]
      have shorter := next?_shorter found
      by_cases trivia : t.isTrivia
      · have same : s.ahead = rest.ahead := by
          rw [ahead, run]
          exact List.filter_cons_of_neg (by simpa using trivia)
        simp only [significantWithin, found, trivia, if_true]
        exact (ih (by omega)).of_trivia same error
      · have first : s.ahead = t :: rest.ahead := by
          rw [ahead, run]
          exact List.filter_cons_of_pos (by simpa using trivia)
        simp only [significantWithin, found, trivia]
        exact .token first error

theorem nextSignificant_finds (s : Scanner) : s.Finds s.nextSignificant :=
  significantWithin_finds (le_refl _)

end Scanner

/-! ### The reader of a buffer -/

namespace TokenBuffer

/-- The reader that a buffer stands for. The token held comes first; an error that was met is behind
it, and otherwise what the scanner has still to yield. -/
def reader (b : TokenBuffer) : Reader where
  ahead := b.held.toList ++ if b.failure.isSome then [] else b.scanner.ahead
  failure := b.failure.or b.scanner.run.error
  last := b.last

variable {b b' : TokenBuffer} {t : Token} {x : Except CompileError (Option Token)}

/-- Looking ahead answers as the reader does, and leaves it where it is. A token seen is held. -/
theorem lookahead_spec (h : b.lookahead = (x, b')) :
    x = b.reader.lookahead ∧ b'.reader = b.reader ∧ ∀ t, x = .ok (some t) → b'.held = some t := by
  obtain ⟨scanner, held, failure, last⟩ := b
  cases held with
  | some t =>
    cases h
    exact ⟨rfl, rfl, fun u hu => by cases hu; rfl⟩
  | none =>
    cases failure with
    | some e =>
      cases h
      exact ⟨rfl, rfl, nofun⟩
    | none =>
      have finds := scanner.nextSignificant_finds
      simp only [lookahead] at h
      split at h
      · next held rest found =>
        cases h
        rw [found] at finds
        cases finds with
        | token ahead error =>
          simp [reader, Reader.lookahead, ahead, error]
        | nothing ahead ended error sound =>
          simp [reader, Reader.lookahead, ahead, ended, error, sound]
      · next e rest found =>
        cases h
        rw [found] at finds
        cases finds with
        | failure ended error => simp [reader, Reader.lookahead, ended, error]

/-- So does seeing the next token. -/
theorem peek_spec {x : Except CompileError Token} (h : b.peek = (x, b')) :
    x = b.reader.peek ∧ b'.reader = b.reader ∧ ∀ t, x = .ok t → b'.held = some t := by
  rcases looked : b.lookahead with ⟨found, b₁⟩
  obtain ⟨same, stays, held⟩ := lookahead_spec looked
  have last : b₁.last = b.last := congrArg Reader.last stays
  rw [Reader.peek, ← same]
  rw [peek, looked] at h
  rcases found with e | _ | t
  · cases h
    exact ⟨rfl, stays, nofun⟩
  · cases h
    exact ⟨by rw [last]; rfl, stays, nofun⟩
  · cases h
    refine ⟨rfl, stays, fun u hu => ?_⟩
    cases hu
    exact held t rfl

/-- Taking a token answers as the reader does, and moves it as the reader moves. -/
theorem consume_reader (b : TokenBuffer) :
    b.consume.1 = b.reader.consume.1 ∧ b.consume.2.reader = b.reader.consume.2 := by
  rcases peeked : b.peek with ⟨found, b₁⟩
  obtain ⟨same, stays, held⟩ := peek_spec peeked
  rw [consume, peeked, Reader.consume]
  rcases found with e | t
  · -- without a token there is nothing in front of the reader
    cases ahead : b.reader.ahead with
    | nil => exact ⟨same, stays⟩
    | cons t rest => simp [Reader.peek, Reader.lookahead, ahead] at same
  · have first : b.reader.ahead = t :: if b₁.failure.isSome then [] else b₁.scanner.ahead := by
      rw [← stays, reader, held t rfl]
      rfl
    rw [first, ← stays]
    exact ⟨rfl, rfl⟩

end TokenBuffer

/-! ### Requests -/

/-- What a buffer can be asked. -/
inductive Request
  | peek
  | lookahead
  | isExhausted
  | consume
  | lastPosition
  deriving DecidableEq, Repr

/-- What a buffer answers: a token where one is wanted, what stands ahead, whether the text is at
its end, or a place. -/
inductive Answer
  | token (answer : Except CompileError Token)
  | ahead (answer : Except CompileError (Option Token))
  | exhausted (answer : Except CompileError Bool)
  | place (position : Position)
  deriving DecidableEq

namespace TokenBuffer

/-- The answer of a buffer, and the buffer afterwards. -/
def answer (b : TokenBuffer) : Request → Answer × TokenBuffer
  | .peek => (.token b.peek.1, b.peek.2)
  | .lookahead => (.ahead b.lookahead.1, b.lookahead.2)
  | .isExhausted => (.exhausted b.isExhausted.1, b.isExhausted.2)
  | .consume => (.token b.consume.1, b.consume.2)
  | .lastPosition => (.place b.last, b)

/-- The answers of a buffer that is asked one thing after the other. -/
def answers : TokenBuffer → List Request → List Answer
  | _, [] => []
  | b, q :: qs => (b.answer q).1 :: (b.answer q).2.answers qs

end TokenBuffer

namespace Request

/-- What stands at a place of a list of tokens: one of them, or behind them the error or nothing. -/
def standing (tokens : List Token) (failure : Option CompileError) (k : Nat) :
    Except CompileError (Option Token) :=
  match tokens[k]?, failure with
  | some t, _ => .ok (some t)
  | none, some e => .error e
  | none, none => .ok none

/-- The last byte of the last of the tokens in front of a place, or the start of the text. -/
def lastBefore (tokens : List Token) (k : Nat) : Position :=
  ((tokens.take k).getLast?.map (·.span.last)).getD .start

/-- The answer at a place where this stands, behind this byte. -/
def answer (standing : Except CompileError (Option Token)) (last : Position) : Request → Answer
  | .peek | .consume => .token <|
    match standing with
    | .ok (some t) => .ok t
    | .ok none => .error (.unexpectedEnd "a token" (some last))
    | .error e => .error e
  | .lookahead => .ahead standing
  | .isExhausted => .exhausted (standing.map Option.isNone)
  | .lastPosition => .place last

end Request

/-! ### A reader at a place -/

namespace Reader

variable (tokens : List Token) (failure : Option CompileError)

/-- The reader that has taken so many tokens. -/
def behind (k : Nat) : Reader := ⟨tokens.drop k, failure, Request.lastBefore tokens k⟩

variable {tokens failure} {k : Nat} {t : Token}

theorem drop_of_getElem? (h : tokens[k]? = some t) : tokens.drop k = t :: tokens.drop (k + 1) := by
  rw [List.drop_eq_getElem?_toList_append, h, Option.toList_some, List.singleton_append]

theorem drop_of_getElem?_none (h : tokens[k]? = none) : tokens.drop k = [] :=
  List.drop_eq_nil_of_le (List.getElem?_eq_none_iff.1 h)

theorem lookahead_behind :
    (behind tokens failure k).lookahead = Request.standing tokens failure k := by
  cases more : tokens[k]? with
  | some t => simp only [lookahead, behind, Request.standing, drop_of_getElem? more, more]
  | none => cases failure <;>
    simp only [lookahead, behind, Request.standing, drop_of_getElem?_none more, more]

theorem peek_behind : Answer.token (behind tokens failure k).peek =
    Request.peek.answer (Request.standing tokens failure k) (Request.lastBefore tokens k) := by
  rw [← lookahead_behind, peek]
  rcases (behind tokens failure k).lookahead with e | _ | t <;> rfl

/-- Taking a token answers what seeing it answers, and moves the reader by one place. At the end it
stays. -/
theorem consume_behind : (behind tokens failure k).consume =
    ((behind tokens failure k).peek, behind tokens failure (k + 1)) := by
  cases more : tokens[k]? with
  | some t =>
    have last : Request.lastBefore tokens (k + 1) = t.span.last := by
      simp [Request.lastBefore, List.take_add_one, more]
    simp only [consume, peek, lookahead, behind, drop_of_getElem? more, last]
  | none =>
    have long : tokens.length ≤ k := List.getElem?_eq_none_iff.1 more
    have next : tokens.drop (k + 1) = [] := List.drop_eq_nil_of_le (by omega)
    have last : Request.lastBefore tokens (k + 1) = Request.lastBefore tokens k := by
      rw [Request.lastBefore, Request.lastBefore, List.take_of_length_le long,
        List.take_of_length_le (by omega)]
    simp only [consume, behind, drop_of_getElem?_none more, next, last]

end Reader

namespace TokenBuffer

variable {b : TokenBuffer} {tokens : List Token} {failure : Option CompileError} {k : Nat}

/-- **One request is answered as the list has it, and only taking a token moves the reader.** -/
theorem answer_behind (h : b.reader = .behind tokens failure k) (q : Request) :
    (b.answer q).1 = q.answer (Request.standing tokens failure k) (Request.lastBefore tokens k) ∧
      (b.answer q).2.reader = .behind tokens failure (k + [q].count .consume) := by
  have place : b.last = Request.lastBefore tokens k := congrArg Reader.last h
  cases q with
  | peek =>
    obtain ⟨same, stays, -⟩ := b.peek_spec rfl
    rw [h] at same stays
    exact ⟨(congrArg Answer.token same).trans Reader.peek_behind, stays⟩
  | lookahead =>
    obtain ⟨same, stays, -⟩ := b.lookahead_spec rfl
    rw [h, Reader.lookahead_behind] at same
    exact ⟨congrArg Answer.ahead same, stays.trans h⟩
  | isExhausted =>
    obtain ⟨same, stays, -⟩ := b.lookahead_spec rfl
    rw [h, Reader.lookahead_behind] at same
    exact ⟨congrArg (Answer.exhausted <| Except.map Option.isNone ·) same, stays.trans h⟩
  | consume =>
    obtain ⟨same, moves⟩ := b.consume_reader
    rw [h, Reader.consume_behind] at same moves
    exact ⟨(congrArg Answer.token same).trans Reader.peek_behind, moves⟩
  | lastPosition => exact ⟨congrArg Answer.place place, h⟩

theorem answers_behind (h : b.reader = .behind tokens failure k) (requests : List Request) :
    b.answers requests = requests.mapIdx fun i q =>
      let place := k + (requests.take i).count .consume
      q.answer (Request.standing tokens failure place) (Request.lastBefore tokens place) := by
  induction requests generalizing b k with
  | nil => rfl
  | cons q qs ih =>
    obtain ⟨first, moves⟩ := answer_behind h q
    rw [answers, List.mapIdx_cons, first, ih moves]
    congr 2
    funext i q'
    have count : (q :: qs.take i).count Request.consume =
        [q].count .consume + (qs.take i).count .consume := by
      rw [← List.count_append, List.singleton_append]
    simp only [List.take_succ_cons, count, Nat.add_assoc]

/-- **A buffer answers like a reader of a list.** The list are the significant tokens of the text
with its lexical error behind them, and the reader stands at the place that counts the requests to
take a token. Its answers depend on that place alone: what stands there, and the last byte of the
tokens in front of it. -/
theorem ofSource_answers (source : String) (requests : List Request) :
    let scan := (Scanner.ofSource source).run
    let tokens := scan.tokens.filter (!·.isTrivia)
    (ofSource source).answers requests = requests.mapIdx fun i q =>
      let place := (requests.take i).count .consume
      q.answer (Request.standing tokens scan.error place) (Request.lastBefore tokens place) := by
  have start : (ofSource source).reader =
      .behind (Scanner.ofSource source).ahead (Scanner.ofSource source).run.error 0 := rfl
  have same := answers_behind start requests
  simp only [Nat.zero_add] at same
  exact same

end TokenBuffer

end JackCompiler
