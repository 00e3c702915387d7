import JackCompiler.Proofs.Descent.Progress
/-!
# A descent beside the states

What the states answer from a place on, and what a script does there, told side by side. The answer
of a state depends on the next token and on what is behind it; so does a script. A script follows an
answer if that is what it ends with, or what is answered behind it from the tree that it has read.

        state  ──── token ────▶ state ─── … ───▶ state ──▶ answer
        script ── look, take ──▶ script ── … ──▶ tree, and the answer behind it
-/

namespace JackCompiler

/-- What reading ends with. -/
abbrev Goal.Answer (g : Goal) : Type := Except CompileError g.Tree × Reader

namespace Reader

variable {g : Goal} {r : Reader} {t : Token} {rest : List Token} {e : CompileError}
  {step step' : Token → Outcome g} {ended ended' : Except String g.Tree}

/-- The reader that has taken the next token. -/
def behindToken (r : Reader) (t : Token) (rest : List Token) : Reader :=
  { r with ahead := rest, last := t.span.last }

/-- What is answered behind a token that has been taken. -/
def onward (r : Reader) : Outcome g → g.Answer
  | .next s => r.readFrom s
  | .complete tree _ => (.ok tree, r)
  | .refuse e _ => (.error e, r)

/-- What is answered about a token that has not been taken. -/
def meetToken (r : Reader) (t : Token) (rest : List Token) : Outcome g → g.Answer
  | .complete tree false => (.ok tree, r)
  | .refuse e false => (.error e, r)
  | outcome => (r.behindToken t rest).onward outcome

/-- What is answered where this is done to the next token, and that to the end of the text. -/
def meet (r : Reader) (step : Token → Outcome g) (ended : Except String g.Tree) : g.Answer :=
  match r.ahead with
  | t :: rest => r.meetToken t rest (step t)
  | [] =>
    match r.failure, ended with
    | some e, _ => (.error e, r)
    | none, .ok tree => (.ok tree, r)
    | none, .error missing => (.error (.unexpectedEnd missing (some r.last)), r)

/-- What is answered where a token of one kind has to be next. -/
def await (r : Reader) (kind : TokenKind) (next : Token → Reader → g.Answer) : g.Answer :=
  match r.ahead with
  | t :: rest =>
    if t.kind = kind then next t (r.behindToken t rest)
    else (.error (.unexpectedToken kind.describe t.describe (some t.position)), r)
  | [] =>
    match r.failure with
    | some e => (.error e, r)
    | none => (.error (.unexpectedEnd kind.describe (some r.last)), r)

/-- At the lexical error there is no other answer. -/
def Fails (r : Reader) (answer : g.Answer) : Prop :=
  ∀ e, r.ahead = [] → r.failure = some e → answer = (.error e, r)

theorem readFrom_eq_meet (r : Reader) (s : State g) : r.readFrom s = r.meet s.step s.atEnd := by
  obtain ⟨ahead, failure, last⟩ := r
  cases ahead with
  | nil =>
    cases failure with
    | some e => rfl
    | none => simp only [readFrom, State.run, meet]; cases s.atEnd <;> rfl
  | cons t rest =>
    simp only [readFrom, State.run, meet]
    rcases s.step t with s' | ⟨tree, _ | _⟩ | ⟨e, _ | _⟩ <;> rfl

theorem meet_token (ahead : r.ahead = t :: rest) :
    r.meet step ended = r.meetToken t rest (step t) := by
  simp only [meet, ahead]

/-- What is done to the next token, or to the end, is all that counts. -/
theorem meet_congr (same : ∀ t, r.ahead.head? = some t → step t = step' t)
    (same' : r.ahead = [] → ended = ended') : r.meet step ended = r.meet step' ended' := by
  cases ahead : r.ahead with
  | nil => simp only [meet, ahead, same' ahead]
  | cons t rest => rw [meet_token ahead, meet_token ahead, same t (by rw [ahead]; rfl)]

theorem meet_fails : r.Fails (r.meet step ended) := by
  intro e ahead failure
  simp only [meet, ahead, failure]

theorem readFrom_fails {s : State g} : r.Fails (r.readFrom s) := by
  rw [readFrom_eq_meet]
  exact meet_fails

theorem await_fails {kind : TokenKind} {next : Token → Reader → g.Answer} :
    r.Fails (r.await kind next) := by
  intro e ahead failure
  simp only [await, ahead, failure]

theorem await_token {kind : TokenKind} {next : Token → Reader → g.Answer}
    (ahead : r.ahead = t :: rest) (same : t.kind = kind) :
    r.await kind next = next t (r.behindToken t rest) := by
  simp only [await, ahead, if_pos same]

/-- Without a token of the kind, its absence is the error. -/
theorem await_eq_meet {kind : TokenKind} {next : Token → Reader → g.Answer}
    (other : ∀ t, r.ahead.head? = some t → t.kind ≠ kind) :
    r.await kind next = r.meet (.expected kind.describe) (.error kind.describe) := by
  cases ahead : r.ahead with
  | nil => cases failure : r.failure <;> simp only [meet, await, ahead, failure]
  | cons t rest =>
    rw [meet_token ahead]
    simp only [await, ahead, if_neg (other t (by rw [ahead]; rfl))]
    rfl

/-- Where one kind of token is awaited, and every other is an error. -/
theorem meet_eq_await {kind : TokenKind} {next : Token → Reader → g.Answer}
    {done : Token → Outcome g}
    (here : ∀ t, r.ahead.head? = some t →
      step t = if t.kind = kind then done t else .expected kind.describe t)
    (short : ended = .error kind.describe)
    (takes : ∀ t rest, r.meetToken t rest (done t) = next t (r.behindToken t rest)) :
    r.meet step ended = r.await kind next := by
  cases ahead : r.ahead with
  | nil => cases failure : r.failure <;> simp only [meet, await, ahead, failure, short]
  | cons t rest =>
    rw [meet_token ahead, here t (by rw [ahead]; rfl)]
    by_cases same : t.kind = kind
    · rw [if_pos same, takes t rest, await_token ahead same]
    · rw [if_neg same]
      simp only [await, ahead, if_neg same]
      rfl

/-- Where the token that is next is of the kind. -/
theorem meet_await {kind : TokenKind} {next : Token → Reader → g.Answer}
    (ahead : r.ahead = t :: rest) (same : t.kind = kind)
    (takes : r.meetToken t rest (step t) = next t (r.behindToken t rest)) :
    r.meet step ended = r.await kind next := by
  rw [meet_token ahead, takes, await_token ahead same]

end Reader

namespace Descent

variable {α β : Type} {g : Goal} {n : Nat} {r : Reader} {answer : g.Answer}
  {k : α → Reader → g.Answer}

/-- What is answered behind a call: with a tree what goes on from there, and otherwise its error. -/
def answerBehind (k : α → Reader → g.Answer) (out : Except CompileError α) (r : Reader) :
    g.Answer :=
  match out with
  | .ok a => k a r
  | .error e => (.error e, r)

/-- A script that is run here ends with this answer, or with a tree from which it is given. -/
def Script.Follows (n : Nat) (x : Script α) (r : Reader) (answer : g.Answer)
    (k : α → Reader → g.Answer) : Prop :=
  ∀ p out q, p.reader = r → x.run (Call.run n) p = some (out, q) →
    answer = answerBehind k out q.reader

/-- A call that is made here ends so. -/
def Call.Follows (n : Nat) (c : Call) (enter : Reader → g.Answer)
    (k : c.Result → Reader → g.Answer) : Prop :=
  ∀ p out q, c.run n p = some (out, q) → enter p.reader = answerBehind k out q.reader

namespace Script

theorem run_bind (calls : (c : Call) → Parser → Option (Ending c.Result)) (x : Script α)
    (f : α → Script β) (p : Parser) : (x >>= f).run calls p =
      match x.run calls p with
      | none => none
      | some (.ok a, q) => (f a).run calls q
      | some (.error e, q) => some (.error e, q) := by
  change (x.bind f).run calls p = _
  induction x generalizing p with
  | done a => rfl
  | fail e => rfl
  | look next ih =>
    simp only [bind, run]
    rcases p.look with ⟨e | t, q⟩
    · rfl
    · exact ih t q
  | take next ih =>
    simp only [bind, run]
    rcases p.take with ⟨e | t, q⟩
    · rfl
    · exact ih t q
  | last next ih => exact ih _ p
  | call c next ih =>
    simp only [bind, run]
    rcases calls c p with _ | ⟨e | a, q⟩
    · rfl
    · rfl
    · exact ih a q

/-- What is behind a script goes on from the answer behind it. -/
theorem Follows.bind {x : Script α} {f : α → Script β} {k' : β → Reader → g.Answer}
    (h : x.Follows n r answer k) (behind : ∀ a r, (f a).Follows n r (k a r) k') :
    (x >>= f).Follows n r answer k' := by
  intro p out q same ended
  rw [run_bind] at ended
  rcases ran : x.run (Call.run n) p with _ | ⟨e | a, p'⟩ <;> simp only [ran] at ended
  · cases ended
  · cases ended
    exact h p _ _ same ran
  · rw [h p _ _ same ran]
    exact behind a p'.reader p' out q rfl ended

theorem follows_pure {a : α} (same : answer = k a r) :
    (pure a : Script α).Follows n r answer k := by
  intro p out q here ended
  cases ended
  rw [same, here]
  rfl

theorem follows_fail (e : CompileError) : (fail e : Script α).Follows n r (.error e, r) k := by
  intro p out q same ended
  cases ended
  rw [same]
  rfl

/-- Looking at the next token. -/
theorem follows_peek {f : Option Token → Script α} (fails : r.Fails answer)
    (token : ∀ t rest, r.ahead = t :: rest → (f (some t)).Follows n r answer k)
    (nothing : r.ahead = [] → r.failure = none → (f none).Follows n r answer k) :
    (peek >>= f).Follows n r answer k := by
  intro p out q same ended
  change (look fun t => f t).run _ p = _ at ended
  rcases looked : p.look with ⟨e | t, p'⟩ <;> simp only [run, looked] at ended
  · obtain ⟨found, stays, -⟩ := Parser.look_spec looked
    cases ended
    rw [same, Reader.lookahead] at found
    rw [stays, same]
    cases ahead : r.ahead <;> cases failure : r.failure <;> simp [ahead, failure] at found
    rw [found]
    exact fails _ ahead failure
  · obtain ⟨found, stays, -⟩ := Parser.look_spec looked
    rw [same] at found stays
    rw [Reader.lookahead] at found
    cases ahead : r.ahead with
    | nil =>
      cases failure : r.failure <;> simp [ahead, failure] at found
      subst found
      exact nothing ahead failure p' out q stays ended
    | cons u rest =>
      simp only [ahead, Except.ok.injEq] at found
      subst found
      exact token u rest ahead p' out q stays ended

/-- Looking at its kind. -/
theorem follows_kindAhead {f : Option TokenKind → Script α} (fails : r.Fails answer)
    (token : ∀ t rest, r.ahead = t :: rest → (f (some t.kind)).Follows n r answer k)
    (nothing : r.ahead = [] → r.failure = none → (f none).Follows n r answer k) :
    (kindAhead >>= f).Follows n r answer k :=
  follows_peek (f := fun t => f (t.map Token.kind)) fails token nothing

/-- Going on in one of two ways. -/
theorem follows_if {kind : TokenKind} {x y : Script α} (fails : r.Fails answer)
    (hit : ∀ t rest, r.ahead = t :: rest → t.kind = kind → x.Follows n r answer k)
    (miss : (∀ t, r.ahead.head? = some t → t.kind ≠ kind) → (r.ahead = [] → r.failure = none) →
      y.Follows n r answer k) :
    (sees kind >>= fun seen => if seen then x else y).Follows n r answer k := by
  refine follows_kindAhead (f := fun ahead => if decide (ahead = some kind) then x else y) fails
    (fun t rest ahead => ?_) fun ahead failure => ?_
  · by_cases same : t.kind = kind
    · rw [if_pos (decide_eq_true (congrArg some same))]
      exact hit t rest ahead same
    · rw [if_neg (by simpa using same)]
      refine miss (fun u head => ?_) fun none => ?_
      · rw [ahead] at head
        cases head
        exact same
      · rw [ahead] at none
        cases none
  · rw [if_neg (by simp)]
    refine miss (fun u head => ?_) fun _ => failure
    rw [ahead] at head
    cases head

/-- Taking the next token, where there is one. -/
theorem follows_take {f : Token → Script α} {t : Token} {rest : List Token}
    (ahead : r.ahead = t :: rest) (behind : (f t).Follows n (r.behindToken t rest) answer k) :
    (consume >>= f).Follows n r answer k := by
  intro p out q same ended
  change (take fun t => f t).run _ p = _ at ended
  rcases took : p.take with ⟨e | u, p'⟩ <;> simp only [run, took] at ended
  · obtain ⟨found, -, -⟩ := Parser.take_error took
    rw [same, Reader.peek, Reader.lookahead, ahead] at found
    cases found
  · obtain ⟨rest', ahead', moved, -⟩ := Parser.take_ok took
    rw [same, ahead] at ahead'
    cases ahead'
    refine behind p' out q ?_ ended
    rw [moved, same]
    rfl

/-- Failing about the next token. -/
theorem follows_unexpected (expected : String) : (unexpected expected : Script α).Follows n r
    (r.meet (.expected expected) (.error expected)) k := by
  intro p out q same ended
  subst same
  unfold unexpected at ended
  change run _ (peek >>= _) p = _ at ended
  refine follows_peek Reader.meet_fails (fun t rest ahead => ?_) (fun ahead failure => ?_) p out q
    rfl ended
  · rw [Reader.meet_token ahead]
    exact follows_fail _
  · simp only [Reader.meet, ahead, failure]
    exact follows_fail _

theorem follows_refused {step : Token → Outcome g} {ended : Except String g.Tree} {t : Token}
    {rest : List Token} {expected : String} (ahead : r.ahead = t :: rest)
    (here : step t = .expected expected t) :
    (unexpected expected : Script α).Follows n r (r.meet step ended) k := by
  have same : r.meet step ended = r.meet (.expected expected) (.error expected) := by
    rw [Reader.meet_token ahead, Reader.meet_token ahead, here]
  rw [same]
  exact follows_unexpected expected

theorem follows_missing {step : Token → Outcome g} {expected : String} (ahead : r.ahead = []) :
    (unexpected expected : Script α).Follows n r (r.meet step (.error expected)) k := by
  have same : r.meet step (.error expected) = r.meet (.expected expected) (.error expected) := by
    simp only [Reader.meet, ahead]
  rw [same]
  exact follows_unexpected expected

/-- Taking the next token, whatever it is. -/
theorem follows_next {f : Token → Script α} {step : Token → Outcome g}
    (token : ∀ t rest, r.ahead = t :: rest →
      (f t).Follows n (r.behindToken t rest) (r.meet step (.error Reader.anyToken)) k) :
    (consume >>= f).Follows n r (r.meet step (.error Reader.anyToken)) k := by
  cases ahead : r.ahead with
  | cons t rest => exact follows_take ahead (token t rest ahead)
  | nil =>
    intro p out q same ended
    change (take fun t => f t).run _ p = _ at ended
    rcases took : p.take with ⟨e | u, p'⟩ <;> simp only [run, took] at ended
    · obtain ⟨found, stays, -⟩ := Parser.take_error took
      cases ended
      rw [stays, same]
      rw [same, Reader.peek, Reader.lookahead, ahead] at found
      cases failure : r.failure <;> rw [failure] at found <;> cases found <;>
        simp only [Reader.meet, ahead, failure] <;> rfl
    · obtain ⟨rest, ahead', -⟩ := Parser.take_ok took
      rw [same, ahead] at ahead'
      cases ahead'

/-- Taking a token that has to be of a kind. -/
theorem follows_expect {kind : TokenKind} {next : Token → Reader → g.Answer} :
    (expect kind).Follows n r (r.await kind next) next := by
  refine follows_if Reader.await_fails (fun t rest ahead same => ?_) fun other _ => ?_
  · rw [Reader.await_token ahead same]
    exact follows_take (f := pure) ahead (follows_pure rfl)
  · rw [Reader.await_eq_meet other]
    exact follows_unexpected _

theorem follows_mark {s : Symbol} {next : Reader → g.Answer} :
    (mark s).Follows n r (r.await (.symbol s) fun _ => next) fun _ => next :=
  follows_expect.bind fun _ _ => follows_pure rfl

/-- Calling a function. -/
theorem follows_enter {c : Call} {enter : Reader → g.Answer} {k : c.Result → Reader → g.Answer}
    (called : c.Follows n enter k) : (Script.enter c).Follows n r (enter r) k := by
  intro p out q same ended
  rw [← same]
  refine called p out q ?_
  rcases ran : c.run n p with _ | ⟨e | a, p'⟩ <;> simp only [Script.enter, run, ran] at ended
  · cases ended
  · exact ended
  · exact ended

end Script

theorem Call.follows_succ {c : Call} {enter : Reader → g.Answer} {k : c.Result → Reader → g.Answer}
    (h : ∀ r, c.script.Follows n r (enter r) k) : c.Follows (n + 1) enter k :=
  fun p out q ended => h p.reader p out q rfl ended

end Descent

end JackCompiler
