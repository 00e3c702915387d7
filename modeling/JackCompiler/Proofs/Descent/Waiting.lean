import JackCompiler.Proofs.Descent.Meeting
/-!
# What the states wait for

Most states wait for one kind of token, which goes on to one state; so does an expression that is
followed by one symbol. A script that takes such a token follows the state. Other states go on with
several tokens, and belong to several scripts: what is done to a token that opens a term, a member,
a routine or a type is told by itself.
-/

namespace JackCompiler

/-! ### States that wait for one kind of token -/

/-- The one kind of token that a state waits for, and the state behind it. -/
def State.wait? {g : Goal} : State g → Option (TokenKind × (Token → State g))
  | .memberName receiver front context =>
    some (.identifier, fun t => .openArguments (.member receiver t.value) front context)
  | .openArguments callee front context =>
    some (.symbol .openParen, fun _ => .firstArgument callee front context)
  | .openBlock context => some (.symbol .openBrace, fun _ => .block [] context)
  | .assignedName place context => some (.identifier, fun t => .assignedTo place t.value context)
  | .assignedElement place name subscript context =>
    some (.symbol .equal,
      fun _ => .operand .empty (.assignedValue place name (some subscript) context))
  | .openIf context => some (.symbol .openParen, fun _ => .operand .empty (.ifCondition context))
  | .openWhile context =>
    some (.symbol .openParen, fun _ => .operand .empty (.whileCondition context))
  | .declaredName place type names context =>
    some (.identifier, fun t => .declaredMore place type (t.value :: names) context)
  | .classWord => some (.keyword .class_, fun t => .className t.position)
  | .className place => some (.identifier, fun t => .openClass place t.value)
  | .openClass place name => some (.symbol .openBrace, fun _ => .members ⟨place, name, []⟩)
  | .routineName owner kind place type =>
    some (.identifier, fun t => .openParameters ⟨owner, kind, place, type, t.value, []⟩)
  | .openParameters routine => some (.symbol .openParen, fun _ => .firstParameter routine)
  | .parameterName routine type =>
    some (.identifier, fun t => .moreParameters (routine.add ⟨type, t.value, some t.position⟩))
  | _ => none

/-- The symbol that closes an expression, and what is done behind it. -/
def ExprContext.closing? {g : Goal} : ExprContext g → Expr → Option (Symbol × Outcome g)
  | .alone, _ | .argument _ _ _ _, _ => none
  | .group outer context, e => some (.closeParen, .next (.primary e outer context))
  | .subscript target outer context, e =>
    some (.closeBracket, .next (.whole (.index target e) outer context))
  | .assignedPlace place name outer, e =>
    some (.closeBracket, .next (.assignedElement place name e outer))
  | .assignedValue place name element outer, e =>
    some (.semicolon, outer.resume (.assignment place name element e))
  | .performed place outer, e => some (.semicolon, outer.resume (.perform e (some place)))
  | .givenBack place outer, e => some (.semicolon, outer.resume (.giveBack (some e) (some place)))
  | .ifCondition outer, e => some (.closeParen, .next (.openBlock (.consequent e outer)))
  | .whileCondition outer, e => some (.closeParen, .next (.openBlock (.loop e outer)))

/-- The kind of token that a state takes by itself, and the state like which it takes any other. -/
def State.otherwise? {g : Goal} : State g → Option (TokenKind × State g)
  | .firstParameter routine => some (.symbol .closeParen, .parameterType routine)
  | .firstArgument callee front context =>
    some (.symbol .closeParen, .operand .empty (.argument callee [] front context))
  | .givenBack place context =>
    some (.symbol .semicolon, .operand .empty (.givenBack place context))
  | .primary e front context => some (.symbol .openBracket, .whole e front context)
  | .self place front context => some (.symbol .dot, .primary (.this (some place)) front context)
  | _ => none

/-- The kind of token with which a state has more to read, the one that it waits for otherwise, and
what is done behind that. -/
def State.unless? {g : Goal} : State g → Option (TokenKind × TokenKind × Outcome g)
  | .declaredMore place type names context =>
    some (.symbol .comma, .symbol .semicolon, context.resume ⟨type, names.reverse, some place⟩)
  | .moreParameters routine =>
    some (.symbol .comma, .symbol .closeParen, .next (.openBlock (.body routine)))
  | .assignedTo place name context =>
    some (.symbol .openBracket, .symbol .equal,
      .next (.operand .empty (.assignedValue place name none context)))
  | _ => none

section

variable {g : Goal} {s s' : State g} {context : ExprContext g} {e : Expr} {symbol : Symbol}
  {outcome : Outcome g} {kind : TokenKind} {next : Token → State g}

theorem State.step_of_wait (waits : s.wait? = some (kind, next)) (t : Token) :
    s.step t = if t.kind = kind then .next (next t) else .expected kind.describe t := by
  cases s <;> simp only [wait?, reduceCtorEq, Option.some.injEq, Prod.mk.injEq] at waits
  all_goals
    obtain ⟨rfl, rfl⟩ := waits
    simp only [step]
    split <;> rename_i same
    · exact (if_pos same).symm
    · exact (if_neg same).symm

theorem State.atEnd_of_wait (waits : s.wait? = some (kind, next)) :
    s.atEnd = .error kind.describe := by
  cases s <;> simp only [wait?, reduceCtorEq, Option.some.injEq, Prod.mk.injEq] at waits
  all_goals
    obtain ⟨rfl, rfl⟩ := waits
    rfl

theorem State.step_otherwise (like : s.otherwise? = some (kind, s')) {t : Token}
    (other : t.kind ≠ kind) : s.step t = s'.step t := by
  cases s <;> simp only [otherwise?, reduceCtorEq, Option.some.injEq, Prod.mk.injEq] at like
  all_goals
    obtain ⟨rfl, rfl⟩ := like
    simp only [step, afterPrimary]

theorem State.atEnd_otherwise (like : s.otherwise? = some (kind, s')) : s.atEnd = s'.atEnd := by
  cases s <;> simp only [otherwise?, reduceCtorEq, Option.some.injEq, Prod.mk.injEq] at like
  all_goals
    obtain ⟨rfl, rfl⟩ := like
    rfl

theorem State.step_unless {more : TokenKind} (waits : s.unless? = some (more, kind, outcome))
    {t : Token} (other : t.kind ≠ more) :
    s.step t = if t.kind = kind then outcome else .expected kind.describe t := by
  cases s <;> simp only [unless?, reduceCtorEq, Option.some.injEq, Prod.mk.injEq] at waits
  all_goals
    obtain ⟨rfl, rfl, rfl⟩ := waits
    simp only [step]
    split <;> rename_i same
    · exact absurd same other
    · exact (if_pos same).symm
    · exact (if_neg same).symm

theorem State.atEnd_unless {more : TokenKind} (waits : s.unless? = some (more, kind, outcome)) :
    s.atEnd = .error kind.describe := by
  cases s <;> simp only [unless?, reduceCtorEq, Option.some.injEq, Prod.mk.injEq] at waits
  all_goals
    obtain ⟨rfl, rfl, rfl⟩ := waits
    rfl

theorem ExprContext.resume_of_closing (closing : context.closing? e = some (symbol, outcome))
    (t : Token) : context.resume e t =
      if t.kind = .symbol symbol then outcome
      else .expected (TokenKind.symbol symbol).describe t := by
  cases context <;>
    simp only [closing?, reduceCtorEq, Option.some.injEq, Prod.mk.injEq] at closing
  all_goals
    obtain ⟨rfl, rfl⟩ := closing
    simp only [resume]
    split <;> rename_i same
    · exact (if_pos same).symm
    · exact (if_neg same).symm

theorem ExprContext.endOfExpr_of_closing
    (closing : context.closing? e = some (symbol, outcome)) :
    State.endOfExpr context e = .error (TokenKind.symbol symbol).describe := by
  cases context <;>
    simp only [closing?, reduceCtorEq, Option.some.injEq, Prod.mk.injEq] at closing
  all_goals
    obtain ⟨rfl, -⟩ := closing
    rfl

end

namespace Reader

variable {g : Goal} {r : Reader} {t : Token} {rest : List Token} {s s' : State g}
  {step : Token → Outcome g} {ended : Except String g.Tree} {kind : TokenKind}
  {next : Token → State g}

/-- A statement that is over goes on behind its last token. -/
theorem meetToken_resume (context : StmtContext g) (statement : Stmt) :
    r.meetToken t rest (context.resume statement) =
      (r.behindToken t rest).onward (context.resume statement) := by
  cases context <;> rfl

theorem meetToken_declaration (context : DeclarationContext g) (d : Declaration) :
    r.meetToken t rest (context.resume d) = (r.behindToken t rest).onward (context.resume d) := by
  cases context with
  | shared owner => rfl
  | perObject owner => rfl
  | inRoutine outer => exact meetToken_resume outer _

theorem meetToken_block (context : BlockContext g) (body : List Stmt) :
    r.meetToken t rest (context.resume body) =
      (r.behindToken t rest).onward (context.resume body) := by
  cases context with
  | body routine => rfl
  | consequent condition outer => rfl
  | alternative condition first outer => exact meetToken_resume outer _
  | loop condition outer => exact meetToken_resume outer _

theorem readFrom_token (ahead : r.ahead = t :: rest) (step : s.step t = .next s') :
    r.readFrom s = (r.behindToken t rest).readFrom s' := by
  rw [readFrom_eq_meet, meet_token ahead, step]
  rfl

theorem readFrom_congr (same : ∀ t, r.ahead.head? = some t → s.step t = s'.step t)
    (same' : r.ahead = [] → s.atEnd = s'.atEnd) : r.readFrom s = r.readFrom s' := by
  rw [readFrom_eq_meet, readFrom_eq_meet]
  exact meet_congr same same'

theorem meet_await_next (next : Token → State g) (ahead : r.ahead = t :: rest)
    (same : t.kind = kind) (here : step t = .next (next t)) :
    r.meet step ended = r.await kind fun t r => r.readFrom (next t) := by
  refine meet_await ahead same ?_
  rw [here]
  rfl

theorem readFrom_await (next : Token → State g) (ahead : r.ahead = t :: rest) (same : t.kind = kind)
    (here : s.step t = .next (next t)) :
    r.readFrom s = r.await kind fun t r => r.readFrom (next t) := by
  rw [readFrom_eq_meet]
  exact meet_await_next next ahead same here

theorem readFrom_eq_await (next : Token → State g)
    (here : ∀ t, r.ahead.head? = some t →
      s.step t = if t.kind = kind then .next (next t) else .expected kind.describe t)
    (short : s.atEnd = .error kind.describe) :
    r.readFrom s = r.await kind fun t r => r.readFrom (next t) := by
  rw [readFrom_eq_meet]
  exact meet_eq_await here short fun _ _ => rfl

theorem readFrom_wait (waits : s.wait? = some (kind, next)) :
    r.readFrom s = r.await kind fun t r => r.readFrom (next t) :=
  readFrom_eq_await next (fun t _ => State.step_of_wait waits t) (State.atEnd_of_wait waits)

theorem readFrom_otherwise (like : s.otherwise? = some (kind, s'))
    (other : ∀ t, r.ahead.head? = some t → t.kind ≠ kind) : r.readFrom s = r.readFrom s' :=
  readFrom_congr (fun t head => State.step_otherwise like (other t head)) fun _ =>
    State.atEnd_otherwise like

theorem readFrom_unless {more : TokenKind} {outcome : Outcome g}
    (waits : s.unless? = some (more, kind, outcome))
    (other : ∀ t, r.ahead.head? = some t → t.kind ≠ more) :
    r.readFrom s = r.await kind fun _ r => r.onward outcome := by
  rw [readFrom_eq_meet]
  refine meet_eq_await (fun t head => State.step_unless waits (other t head))
    (State.atEnd_unless waits) fun t rest => ?_
  cases s <;> simp only [State.unless?, reduceCtorEq, Option.some.injEq, Prod.mk.injEq] at waits
  all_goals
    obtain ⟨-, -, rfl⟩ := waits
    first | rfl | exact meetToken_declaration _ _

/-- Without `else` a statement with `if` is over. -/
theorem readFrom_consequentDone {condition : Expr} {body : List Stmt} {context : StmtContext g}
    (other : ∀ t, r.ahead.head? = some t → t.kind ≠ .keyword .else_)
    (reached : r.ahead = [] → r.failure = none) :
    r.readFrom (.consequentDone condition body context) =
      r.onward (context.resume (.ifThen condition body)) := by
  have step (t : Token) (head : r.ahead.head? = some t) :
      (State.consequentDone condition body context).step t =
        State.afterStatement (.ifThen condition body) context t := by
    simp only [State.step]
    split <;> rename_i same
    · exact absurd same (other t head)
    · rfl
  cases context with
  | alone =>
    rw [readFrom_eq_meet]
    cases ahead : r.ahead with
    | nil => simp only [meet, ahead, reached ahead]; rfl
    | cons t rest =>
      rw [meet_token ahead, step t (by rw [ahead]; rfl)]
      rfl
  | inside earlier block => exact readFrom_congr step fun _ => rfl

/-- An expression that only one symbol can follow. -/
theorem meet_resume {context : ExprContext g} {e : Expr} {symbol : Symbol} {outcome : Outcome g}
    (closing : context.closing? e = some (symbol, outcome)) :
    r.meet (context.resume e) (State.endOfExpr context e) =
      r.await (.symbol symbol) fun _ r => r.onward outcome := by
  refine meet_eq_await (fun t _ => ExprContext.resume_of_closing closing t)
    (ExprContext.endOfExpr_of_closing closing) fun t rest => ?_
  cases context <;>
    simp only [ExprContext.closing?, reduceCtorEq, Option.some.injEq, Prod.mk.injEq] at closing
  all_goals
    obtain ⟨-, rfl⟩ := closing
    first | rfl | exact meetToken_resume _ _

end Reader

/-! ### States in which a part is read that may be missing -/

namespace State

variable {g : Goal}

/-- A token that opens a term: an operand without operators in front. -/
def beginTerm (front : Pending) (context : ExprContext g) (t : Token) : Outcome g :=
  if t.kind = .symbol .minus ∨ t.kind = .symbol .tilde then .expected "expression" t
  else beginOperand front context t

/-- A token that opens a member. -/
def beginMember (owner : OpenClass) (t : Token) : Outcome .class_ :=
  if t.kind = .symbol .closeBrace then .expected "class member" t else inClass owner t

/-- A token that opens a routine, and is taken even if it does not. -/
def beginRoutine (owner : OpenClass) (t : Token) : Outcome .class_ :=
  match t.routine? with
  | some kind => .next (.routineType owner kind t.position)
  | none => .refuse (.unexpectedToken "subroutine" t.describe (some t.position)) true

theorem beginMember_routine (owner : OpenClass) {t : Token} {kind : RoutineKind}
    (opened : t.routine? = some kind) : beginMember owner t = beginRoutine owner t := by
  have same : t.kind = .keyword .function ∨ t.kind = .keyword .method ∨
      t.kind = .keyword .constructor := by
    simp only [Token.routine?] at opened
    split at opened <;> simp_all
  rcases same with same | same | same <;>
    simp [beginMember, inClass, beginRoutine, Token.routine?, same]

/-- A token that names a type. -/
def beginType (withVoid : Bool) (next : JackType → State g) (t : Token) : Outcome g :=
  match t.type? withVoid with
  | some type => .next (next type)
  | none => .expected "type" t

end State

namespace Descent

namespace Script

variable {α β : Type} {g : Goal} {n : Nat} {r : Reader} {answer : g.Answer} {t : Token}
  {rest : List Token} {k : α → Reader → g.Answer}

/-- Taking the token that a state waits for. -/
theorem follows_wait {s : State g} {kind : TokenKind} {next : Token → State g}
    (waits : s.wait? = some (kind, next)) :
    (expect kind).Follows n r (r.readFrom s) fun t r => r.readFrom (next t) := by
  rw [Reader.readFrom_wait waits]
  exact follows_expect

theorem follows_wait_mark {s s' : State g} {symbol : Symbol}
    (waits : s.wait? = some (.symbol symbol, fun _ => s')) :
    (mark symbol).Follows n r (r.readFrom s) fun _ r => r.readFrom s' := by
  rw [Reader.readFrom_wait waits]
  exact follows_mark

/-- Calling a function that takes the token that is next. -/
theorem follows_opened {c : Call} {k : c.Result → Reader → g.Answer} {step : Token → Outcome g}
    {ended : Except String g.Tree} {t : Token} {rest : List Token} {kind : TokenKind}
    {next : Token → State g} (ahead : r.ahead = t :: rest) (same : t.kind = kind)
    (here : step t = .next (next t))
    (called : c.Follows n (·.await kind fun t r => r.readFrom (next t)) k) :
    (enter c).Follows n r (r.meet step ended) k := by
  rw [Reader.meet_await_next next ahead same here]
  exact follows_enter called

/-- Taking the symbol that closes an expression. -/
theorem follows_close {context : ExprContext g} {e : Expr} {symbol : Symbol} {outcome : Outcome g}
    (closing : context.closing? e = some (symbol, outcome)) :
    (mark symbol).Follows n r (r.meet (context.resume e) (State.endOfExpr context e))
      fun _ r => r.onward outcome := by
  rw [Reader.meet_resume closing]
  exact follows_mark

end Script

end Descent

end JackCompiler
