import JackCompiler.Proofs.Grammar.Derivation
import JackCompiler.Proofs.Syntax.Steps
/-!
# What the grammar derives is read

The tokens of a derivation, read from the state that wants its part, lead to the state behind the
tree it denotes. Names, operands and statements with `if` end only where the next token does not go
on with them, so their lemmas speak of the tokens in front of one that does not.

        operand ──unary──▶ whole ──operations──▶ whole ──')' ']' ',' ';'──▶ what surrounds it
-/

namespace JackCompiler

/-! ### Tokens that go on, and tokens that open -/

namespace TokenKind

/-- Whether a token goes on with a name. -/
def extendsPrimary : TokenKind → Bool
  | symbol .dot | symbol .openParen => true
  | _ => false

/-- Whether a token goes on with a primary. -/
def extendsPostfix : TokenKind → Bool
  | symbol .openBracket => true
  | k => k.extendsPrimary

/-- Whether a token goes on with an expression. -/
def extendsExpression : TokenKind → Bool
  | symbol s => s.binaryOp?.isSome || (symbol s).extendsPostfix
  | _ => false

/-- Whether a token opens a primary. -/
def opensPrimary : TokenKind → Bool
  | integerConstant | stringConstant | identifier => true
  | keyword k => k = .true_ ∨ k = .false_ ∨ k = .null ∨ k = .this
  | symbol s => s = .openParen
  | whitespace | comment => false

/-- Whether a token opens an operand. -/
def opensOperand (k : TokenKind) : Bool :=
  k.opensPrimary || k = symbol .minus || k = symbol .tilde

/-- Whether a token opens a statement. -/
def opensStatement : TokenKind → Bool
  | keyword k => k = .var ∨ k = .let_ ∨ k = .do_ ∨ k = .if_ ∨ k = .while_ ∨ k = .return_
  | _ => false

theorem extendsPrimary_of_postfix {k : TokenKind} (h : k.extendsPostfix = false) :
    k.extendsPrimary = false := by
  unfold extendsPostfix at h
  split at h
  · cases h
  · exact h

theorem extendsPostfix_of_expression {k : TokenKind} (h : k.extendsExpression = false) :
    k.extendsPostfix = false := by
  unfold extendsExpression at h
  split at h
  · exact (Bool.or_eq_false_iff.1 h).2
  · next other =>
    unfold extendsPostfix extendsPrimary
    split
    · exact absurd rfl (other _)
    · split
      · exact absurd rfl (other _)
      · exact absurd rfl (other _)
      · rfl

end TokenKind

/-! ### States that a token does not tell apart -/

namespace State

variable {front : Pending} {context : ExprContext .class_} {t : Token}

theorem after_congr {s s' : State .class_} (h : s.step t = s'.step t) (ts : List Token) :
    s.after (t :: ts) = s'.after (t :: ts) := by
  rw [after, after, h]

theorem named_step {name : String} {place : Position} (h : t.kind.extendsPrimary = false) :
    (named name place front context).step t =
      (primary (.reference name (some place)) front context).step t := by
  simp only [step]
  split
  · next kind => rw [kind] at h; cases h
  · next kind => rw [kind] at h; cases h
  · rfl

theorem self_step {place : Position} (h : t.kind.extendsPrimary = false) :
    (self place front context).step t = (primary (.this (some place)) front context).step t := by
  simp only [step]
  split
  · next kind => rw [kind] at h; cases h
  · rfl

theorem primary_step {e : Expr} (h : t.kind.extendsPostfix = false) :
    (primary e front context).step t = (whole e front context).step t := by
  simp only [step, afterPrimary]
  split
  · next kind => rw [kind] at h; cases h
  · rfl

theorem whole_step {e : Expr} (h : t.kind.extendsExpression = false) :
    (whole e front context).step t = context.resume (front.close e) t := by
  simp only [step, afterOperand]
  split
  · next s kind =>
    rw [kind] at h
    have none : s.binaryOp?.isSome = false := (Bool.or_eq_false_iff.1 h).1
    rw [Option.isSome_eq_false_iff, Option.isNone_iff_eq_none] at none
    rw [none]
  · rfl

/-- What is behind an operand depends on the expression up to there. -/
theorem whole_step_congr {e e' : Expr} {front' : Pending} (h : front.close e = front'.close e') :
    (whole e front context).step t = (whole e' front' context).step t := by
  simp only [step, afterOperand, h]

end State

theorem Pending.close_sign (front : Pending) (op : UnaryOp) (e : Expr) :
    (front.sign op).close e = front.close (.unary op e) := rfl

theorem Pending.close_empty (e : Expr) : Pending.empty.close e = e := rfl

namespace Grammar

variable {context : ExprContext .class_} {t : Token} {ts : List Token}

/-! ### First tokens -/

theorem Terminal.opens {k : TokenKind} (a : Terminal k) (h : k.opensPrimary) :
    a.token.kind.opensPrimary := by
  rw [a.kind_eq]
  exact h

theorem Primary.onto_eq_cons (p : Primary) (ts : List Token) :
    ∃ t us, p.onto ts = t :: us ∧ t.kind.opensPrimary := by
  cases p with
  | number n => exact ⟨_, _, by rw [onto], n.opens rfl⟩
  | text s => exact ⟨_, _, by rw [onto], s.opens rfl⟩
  | true_ w | false_ w | null w | this w => exact ⟨_, _, by rw [onto], w.opens rfl⟩
  | group left => exact ⟨_, _, by rw [onto], left.opens rfl⟩
  | memberCall receiver => exact ⟨_, _, by rw [onto], receiver.opens rfl⟩
  | thisCall receiver => exact ⟨_, _, by rw [onto], receiver.opens rfl⟩
  | call name | name name => exact ⟨_, _, by rw [onto], name.opens rfl⟩

theorem Postfix.onto_eq_cons (p : Postfix) (ts : List Token) :
    ∃ t us, p.onto ts = t :: us ∧ t.kind.opensPrimary := by
  cases p with
  | plain primary =>
    rw [onto]
    exact primary.onto_eq_cons ts
  | index primary =>
    rw [onto]
    exact primary.onto_eq_cons _

theorem Unary.onto_eq_cons (u : Unary) (ts : List Token) :
    ∃ t us, u.onto ts = t :: us ∧ t.kind.opensOperand := by
  cases u with
  | sign op sign => exact ⟨_, _, by rw [onto], by rw [sign.kind_eq]; cases op <;> rfl⟩
  | plain operand =>
    obtain ⟨t, us, same, opens⟩ := operand.onto_eq_cons ts
    exact ⟨t, us, by rw [onto, same], by rw [TokenKind.opensOperand, opens]; rfl⟩

theorem Expression.onto_eq_cons (e : Expression) (ts : List Token) :
    ∃ t us, e.onto ts = t :: us ∧ t.kind.opensOperand := by
  cases e with
  | mk first rest =>
    rw [onto]
    exact first.onto_eq_cons _

theorem binarySymbol_stops (op : BinaryOp) :
    (TokenKind.symbol (binarySymbol op)).extendsPostfix = false := by
  cases op <;> rfl

theorem Operations.onto_eq_cons (ops : Operations) (h : t.kind.extendsExpression = false)
    (ts : List Token) :
    ∃ u us, ops.onto (t :: ts) = u :: us ∧ u.kind.extendsPostfix = false := by
  cases ops with
  | nil => exact ⟨t, ts, by rw [onto], TokenKind.extendsPostfix_of_expression h⟩
  | cons op sign operand rest =>
    refine ⟨sign.token, _, by rw [onto], ?_⟩
    rw [sign.kind_eq]
    exact binarySymbol_stops op

theorem MoreArguments.onto_eq_cons (more : MoreArguments) (right : Mark .closeParen)
    (ts : List Token) :
    ∃ u us, more.onto (right.token :: ts) = u :: us ∧ u.kind.extendsExpression = false := by
  cases more with
  | nil => exact ⟨right.token, ts, by rw [onto], by rw [right.kind_eq]; rfl⟩
  | cons comma argument more => exact ⟨comma.token, _, by rw [onto], by rw [comma.kind_eq]; rfl⟩

/-! ### Expressions -/

theorem memberName_step {front : Pending} (receiver : Receiver) (name : Name) :
    (State.memberName receiver front context).step name.token =
      .next (.openArguments (.member receiver name.text) front context) := by
  simp only [State.step, name.kind_eq, Name.text]

theorem openArguments_step {front : Pending} (callee : Callee) (left : Mark .openParen) :
    (State.openArguments callee front context).step left.token =
      .next (.firstArgument callee front context) := by
  simp only [State.step, left.kind_eq]

theorem Number.constant?_eq (n : Number) : n.token.constant? = some n.value := by
  rw [Token.constant?_digits n.digits]
  exact if_pos n.small

mutual

/-- An expression is read up to a token that does not go on with it. -/
theorem Expression.passes : ∀ (e : Expression) {context : ExprContext .class_} {t : Token}
    {ts : List Token}, t.kind.extendsExpression = false →
    (State.operand .empty context).after (e.onto (t :: ts)) =
      (State.whole e.tree .empty context).after (t :: ts)
  | .mk first rest, context, t, ts, stops => by
    obtain ⟨u, us, onto, stops'⟩ := rest.onto_eq_cons stops ts
    rw [Expression.onto, Expression.tree, onto, Unary.passes first stops', ← onto,
      Operations.passes rest stops, Pending.close_empty]

/-- Operators and operands are read up to a token that does not go on with them. -/
theorem Operations.passes : ∀ (ops : Operations) {e : Expr} {front : Pending}
    {context : ExprContext .class_} {t : Token} {ts : List Token},
    t.kind.extendsExpression = false →
    (State.whole e front context).after (ops.onto (t :: ts)) =
      (State.whole (ops.apply (front.close e)) .empty context).after (t :: ts)
  | .nil, e, front, context, t, ts, _ => by
    rw [Operations.onto, Operations.apply]
    exact State.after_congr (State.whole_step_congr rfl) ts
  | .cons op sign operand rest, e, front, context, t, ts, stops => by
    obtain ⟨u, us, onto, stops'⟩ := rest.onto_eq_cons stops ts
    have step : (State.whole e front context).step sign.token =
        .next (.operand ⟨some (front.close e, op, sign.token.position), []⟩ context) := by
      simp only [State.step, State.afterOperand, sign.kind_eq, binaryOp?_eq_some.2 rfl]
    rw [Operations.onto, Operations.apply, State.after_cons step, onto, Unary.passes operand stops',
      ← onto, Operations.passes rest stops]
    rfl

/-- An operand is read up to a token that does not go on with it. -/
theorem Unary.passes : ∀ (u : Unary) {front : Pending} {context : ExprContext .class_} {t : Token}
    {ts : List Token}, t.kind.extendsPostfix = false →
    (State.operand front context).after (u.onto (t :: ts)) =
      (State.whole u.tree front context).after (t :: ts)
  | .sign op sign operand, front, context, t, ts, stops => by
    have step : (State.operand front context).step sign.token =
        .next (.operand (front.sign op) context) := by
      cases op <;> simp only [State.step, State.beginOperand, sign.kind_eq, unarySymbol]
    rw [Unary.onto, Unary.tree, State.after_cons step, Unary.passes operand stops]
    exact State.after_congr (State.whole_step_congr (front.close_sign op _)) ts
  | .plain operand, front, context, t, ts, stops => by
    rw [Unary.onto, Unary.tree]
    exact Postfix.passes operand stops

/-- An operand without operators is read up to a token that does not go on with it. -/
theorem Postfix.passes : ∀ (p : Postfix) {front : Pending} {context : ExprContext .class_}
    {t : Token} {ts : List Token}, t.kind.extendsPostfix = false →
    (State.operand front context).after (p.onto (t :: ts)) =
      (State.whole p.tree front context).after (t :: ts)
  | .plain primary, front, context, t, ts, stops => by
    rw [Postfix.onto, Postfix.tree,
      Primary.passes primary (TokenKind.extendsPrimary_of_postfix stops)]
    exact State.after_congr (State.primary_step stops) ts
  | .index primary left subscript right, front, context, t, ts, stops => by
    have step : (State.primary primary.tree front context).step left.token =
        .next (.operand .empty (.subscript primary.tree front context)) := by
      simp only [State.step, State.afterPrimary, left.kind_eq]
    have stop : right.token.kind.extendsExpression = false := by rw [right.kind_eq]; rfl
    have step' : (State.whole subscript.tree .empty
        (.subscript primary.tree front context)).step right.token =
        .next (.whole (.index primary.tree subscript.tree) front context) := by
      rw [State.whole_step stop]
      simp only [ExprContext.resume, right.kind_eq, Pending.close_empty]
    rw [Postfix.onto, Postfix.tree, Primary.passes primary (by rw [left.kind_eq]; rfl),
      State.after_cons step, Expression.passes subscript stop, State.after_cons step']

/-- A primary is read up to a token that does not go on with it. -/
theorem Primary.passes : ∀ (p : Primary) {front : Pending} {context : ExprContext .class_}
    {t : Token} {ts : List Token}, t.kind.extendsPrimary = false →
    (State.operand front context).after (p.onto (t :: ts)) =
      (State.primary p.tree front context).after (t :: ts)
  | .number n, front, context, t, ts, _ => by
    have step : (State.operand front context).step n.token =
        .next (.primary (.constant n.value (some n.token.position)) front context) := by
      simp only [State.step, State.beginOperand, n.kind_eq, n.constant?_eq]
    rw [Primary.onto, Primary.tree, State.after_cons step]
  | .text s, front, context, t, ts, _ => by
    have step : (State.operand front context).step s.token =
        .next (.primary (.string s.token.value) front context) := by
      simp only [State.step, State.beginOperand, s.kind_eq]
      exact if_pos s.short
    rw [Primary.onto, Primary.tree, State.after_cons step]
  | .true_ w, front, context, t, ts, _ => by
    have step : (State.operand front context).step w.token =
        .next (.primary (.boolean true) front context) := by
      simp only [State.step, State.beginOperand, w.kind_eq]
    rw [Primary.onto, Primary.tree, State.after_cons step]
  | .false_ w, front, context, t, ts, _ => by
    have step : (State.operand front context).step w.token =
        .next (.primary (.boolean false) front context) := by
      simp only [State.step, State.beginOperand, w.kind_eq]
    rw [Primary.onto, Primary.tree, State.after_cons step]
  | .null w, front, context, t, ts, _ => by
    have step : (State.operand front context).step w.token =
        .next (.primary .null front context) := by
      simp only [State.step, State.beginOperand, w.kind_eq]
    rw [Primary.onto, Primary.tree, State.after_cons step]
  | .this w, front, context, t, ts, stops => by
    have step : (State.operand front context).step w.token =
        .next (.self w.token.position front context) := by
      simp only [State.step, State.beginOperand, w.kind_eq]
    rw [Primary.onto, Primary.tree, State.after_cons step]
    exact State.after_congr (State.self_step stops) ts
  | .name name, front, context, t, ts, stops => by
    have step : (State.operand front context).step name.token =
        .next (.named name.text name.token.position front context) := by
      simp only [State.step, State.beginOperand, name.kind_eq, Name.text]
    rw [Primary.onto, Primary.tree, State.after_cons step]
    exact State.after_congr (State.named_step stops) ts
  | .group left inner right, front, context, t, ts, _ => by
    have step : (State.operand front context).step left.token =
        .next (.operand .empty (.group front context)) := by
      simp only [State.step, State.beginOperand, left.kind_eq]
    have stop : right.token.kind.extendsExpression = false := by rw [right.kind_eq]; rfl
    have step' : (State.whole inner.tree .empty (.group front context)).step right.token =
        .next (.primary inner.tree front context) := by
      rw [State.whole_step stop]
      simp only [ExprContext.resume, right.kind_eq, Pending.close_empty]
    rw [Primary.onto, Primary.tree, State.after_cons step, Expression.passes inner stop,
      State.after_cons step']
  | .memberCall receiver dot name left arguments right, front, context, t, ts, _ => by
    have step : (State.operand front context).step receiver.token =
        .next (.named receiver.text receiver.token.position front context) := by
      simp only [State.step, State.beginOperand, receiver.kind_eq, Name.text]
    have step' : (State.named receiver.text receiver.token.position front context).step dot.token =
        .next (.memberName (.named receiver.text receiver.token.position) front context) := by
      simp only [State.step, dot.kind_eq]
    rw [Primary.onto, Primary.tree, State.after_cons step, State.after_cons step',
      State.after_cons (memberName_step _ name), State.after_cons (openArguments_step _ left),
      Arguments.passes arguments right]
    rfl
  | .thisCall receiver dot name left arguments right, front, context, t, ts, _ => by
    have step : (State.operand front context).step receiver.token =
        .next (.self receiver.token.position front context) := by
      simp only [State.step, State.beginOperand, receiver.kind_eq]
    have step' : (State.self receiver.token.position front context).step dot.token =
        .next (.memberName (.this receiver.token.position) front context) := by
      simp only [State.step, dot.kind_eq]
    rw [Primary.onto, Primary.tree, State.after_cons step, State.after_cons step',
      State.after_cons (memberName_step _ name), State.after_cons (openArguments_step _ left),
      Arguments.passes arguments right]
    rfl
  | .call name left arguments right, front, context, t, ts, _ => by
    have step : (State.operand front context).step name.token =
        .next (.named name.text name.token.position front context) := by
      simp only [State.step, State.beginOperand, name.kind_eq, Name.text]
    have step' : (State.named name.text name.token.position front context).step left.token =
        .next (.firstArgument (.own name.text name.token.position) front context) := by
      simp only [State.step, left.kind_eq]
    rw [Primary.onto, Primary.tree, State.after_cons step, State.after_cons step',
      Arguments.passes arguments right]
    rfl

/-- Arguments are read with the parenthesis that closes them. -/
theorem Arguments.passes : ∀ (arguments : Arguments) (right : Mark .closeParen) {callee : Callee}
    {front : Pending} {context : ExprContext .class_} {ts : List Token},
    (State.firstArgument callee front context).after (arguments.onto (right.token :: ts)) =
      (State.primary (callee.call arguments.trees) front context).after ts
  | .none, right, callee, front, context, ts => by
    have step : (State.firstArgument callee front context).step right.token =
        .next (.primary (callee.call []) front context) := by
      simp only [State.step, right.kind_eq]
    rw [Arguments.onto, Arguments.trees, State.after_cons step]
  | .some first more, right, callee, front, context, ts => by
    obtain ⟨u, us, onto, opens⟩ := first.onto_eq_cons (more.onto (right.token :: ts))
    obtain ⟨v, vs, onto', stops⟩ := more.onto_eq_cons right ts
    have same : (State.firstArgument callee front context).step u =
        (State.operand .empty (.argument callee [] front context)).step u := by
      simp only [State.step]
      split
      · next kind => rw [kind] at opens; cases opens
      · rfl
    rw [Arguments.onto, Arguments.trees, onto, State.after_congr same, ← onto, onto',
      Expression.passes first stops, ← onto', MoreArguments.passes more right]
    rfl

/-- Further arguments are read with the parenthesis that closes them. -/
theorem MoreArguments.passes : ∀ (more : MoreArguments) (right : Mark .closeParen) {e : Expr}
    {callee : Callee} {earlier : List Expr} {front : Pending} {context : ExprContext .class_}
    {ts : List Token},
    (State.whole e .empty (.argument callee earlier front context)).after
        (more.onto (right.token :: ts)) =
      (State.primary (callee.call (earlier.reverse ++ e :: more.trees)) front context).after ts
  | .nil, right, e, callee, earlier, front, context, ts => by
    have step : (State.whole e .empty (.argument callee earlier front context)).step right.token =
        .next (.primary (callee.call (e :: earlier).reverse) front context) := by
      rw [State.whole_step (by rw [right.kind_eq]; rfl)]
      simp only [ExprContext.resume, right.kind_eq, Pending.close_empty]
    rw [MoreArguments.onto, MoreArguments.trees, State.after_cons step, List.reverse_cons]
  | .cons comma argument more, right, e, callee, earlier, front, context, ts => by
    obtain ⟨v, vs, onto, stops⟩ := more.onto_eq_cons right ts
    have step : (State.whole e .empty (.argument callee earlier front context)).step comma.token =
        .next (.operand .empty (.argument callee (e :: earlier) front context)) := by
      rw [State.whole_step (by rw [comma.kind_eq]; rfl)]
      simp only [ExprContext.resume, comma.kind_eq, Pending.close_empty]
    rw [MoreArguments.onto, MoreArguments.trees, State.after_cons step, onto,
      Expression.passes argument stops, ← onto, MoreArguments.passes more right,
      List.reverse_cons, List.append_assoc, List.singleton_append]

end

/-- An expression is read with the symbol that closes it. -/
theorem Expression.passes_to {k : Symbol} (e : Expression) (stop : Mark k) {s' : State .class_}
    (stops : (TokenKind.symbol k).extendsExpression = false)
    (resumes : context.resume e.tree stop.token = .next s') :
    (State.operand .empty context).after (e.onto (stop.token :: ts)) = s'.after ts := by
  have stops : stop.token.kind.extendsExpression = false := by rw [stop.kind_eq]; exact stops
  have step : (State.whole e.tree .empty context).step stop.token = .next s' := by
    rw [State.whole_step stops, Pending.close_empty, resumes]
  rw [e.passes stops, State.after_cons step]

/-! ### Declarations -/

theorem VariableType.type?_eq (type : VariableType) (withVoid : Bool) :
    type.token.type? withVoid = some type.tree := by
  cases type with
  | int w | char w | boolean w => simp only [token, tree, Token.type?, w.kind_eq]
  | named n => simp only [token, tree, Token.type?, n.kind_eq, Name.text]

theorem ResultType.type?_eq (type : ResultType) : type.token.type? true = some type.tree := by
  cases type with
  | value type => exact type.type?_eq true
  | void w => simp only [token, tree, Token.type?, w.kind_eq, if_true]

theorem MoreNames.passes {place : Position} {type : JackType} {context : DeclarationContext .class_}
    {s' : State .class_} (stop : Mark .semicolon) : ∀ (more : MoreNames) (names : List String),
    context.resume ⟨type, names.reverse ++ more.map (·.2.text), some place⟩ = .next s' →
    (State.declaredMore place type names context).after (more.onto (stop.token :: ts)) =
      s'.after ts
  | [], names, resumes => by
    rw [List.map_nil, List.append_nil] at resumes
    have step : (State.declaredMore place type names context).step stop.token = .next s' := by
      simp only [State.step, stop.kind_eq, resumes]
    rw [MoreNames.onto, State.after_cons step]
  | (comma, name) :: more, names, resumes => by
    have step : (State.declaredMore place type names context).step comma.token =
        .next (.declaredName place type names context) := by
      simp only [State.step, comma.kind_eq]
    have step' : (State.declaredName place type names context).step name.token =
        .next (.declaredMore place type (name.text :: names) context) := by
      simp only [State.step, name.kind_eq, Name.text]
    rw [MoreNames.onto, State.after_cons step, State.after_cons step']
    refine MoreNames.passes stop more _ ?_
    rw [List.reverse_cons, List.append_assoc]
    exact resumes

/-- Variables are read with the semicolon behind them. -/
theorem Variables.passes (v : Variables) {place : Position} {context : DeclarationContext .class_}
    {s' : State .class_} (resumes : context.resume (v.tree place) = .next s') :
    (State.declaredType place context).after (v.onto ts) = s'.after ts := by
  have step : (State.declaredType place context).step v.type.token =
      .next (.declaredName place v.type.tree [] context) := by
    simp only [State.step, v.type.type?_eq]
  have step' : (State.declaredName place v.type.tree [] context).step v.first.token =
      .next (.declaredMore place v.type.tree [v.first.text] context) := by
    simp only [State.step, v.first.kind_eq, Name.text]
  rw [Variables.onto, State.after_cons step, State.after_cons step']
  exact MoreNames.passes v.stop v.more [v.first.text] resumes

/-! ### Statements -/

theorem Statement.onto_eq_cons (s : Statement) (ts : List Token) :
    ∃ t us, s.onto ts = t :: us ∧ t.kind.opensStatement := by
  cases s <;> exact ⟨_, _, by rw [onto], by rw [Terminal.kind_eq]; rfl⟩

theorem Statements.onto_eq_cons (ss : Statements) (h : t.kind ≠ .keyword .else_)
    (ts : List Token) :
    ∃ u us, ss.onto (t :: ts) = u :: us ∧ u.kind ≠ .keyword .else_ := by
  cases ss with
  | nil => exact ⟨t, ts, by rw [onto], h⟩
  | cons first rest =>
    obtain ⟨u, us, same, opens⟩ := first.onto_eq_cons (rest.onto (t :: ts))
    refine ⟨u, us, by rw [onto, same], ?_⟩
    intro kind
    rw [kind] at opens
    cases opens

theorem brace_stops (right : Mark .closeBrace) : right.token.kind ≠ .keyword .else_ := by
  rw [right.kind_eq]
  decide

theorem assignedName_step {context : StmtContext .class_} (place : Position) (name : Name) :
    (State.assignedName place context).step name.token =
      .next (.assignedTo place name.text context) := by
  simp only [State.step, name.kind_eq, Name.text]

/-- The condition of a statement with `if` is read with its parentheses. -/
theorem condition_passes {context : StmtContext .class_} (left : Mark .openParen)
    (condition : Expression) (right : Mark .closeParen) :
    (State.openIf context).after (left.token :: condition.onto (right.token :: ts)) =
      (State.openBlock (.consequent condition.tree context)).after ts := by
  have step : (State.openIf context).step left.token =
      .next (.operand .empty (.ifCondition context)) := by
    simp only [State.step, left.kind_eq]
  have resumes : (ExprContext.ifCondition context).resume condition.tree right.token =
      .next (.openBlock (.consequent condition.tree context)) := by
    simp only [ExprContext.resume, right.kind_eq]
  rw [State.after_cons step, condition.passes_to right rfl resumes]

mutual

/-- A statement is read in a block, up to a token that is not `else`. -/
theorem Statement.passes : ∀ (s : Statement) {earlier : List Stmt} {context : BlockContext .class_}
    {t : Token} {ts : List Token}, t.kind ≠ .keyword .else_ →
    (State.block earlier context).after (s.onto (t :: ts)) =
      (State.block (s.tree :: earlier) context).after (t :: ts)
  | .declare word declared, earlier, context, t, ts, _ => by
    have step : (State.block earlier context).step word.token =
        .next (.declaredType word.token.position (.inRoutine (.inside earlier context))) := by
      simp only [State.step, State.inBlock, State.beginStatement, word.kind_eq]
    rw [Statement.onto, Statement.tree, State.after_cons step]
    exact declared.passes rfl
  | .assign word name equal value stop, earlier, context, t, ts, _ => by
    have step : (State.block earlier context).step word.token =
        .next (.assignedName word.token.position (.inside earlier context)) := by
      simp only [State.step, State.inBlock, State.beginStatement, word.kind_eq]
    have step' : (State.assignedTo word.token.position name.text
        (.inside earlier context)).step equal.token =
        .next (.operand .empty
          (.assignedValue word.token.position name.text none (.inside earlier context))) := by
      simp only [State.step, equal.kind_eq]
    rw [Statement.onto, Statement.tree, State.after_cons step,
      State.after_cons (assignedName_step _ name), State.after_cons step']
    refine value.passes_to stop rfl ?_
    simp only [ExprContext.resume, stop.kind_eq]
    rfl
  | .assignElement word name left subscript right equal value stop, earlier, context, t, ts, _ => by
    have step : (State.block earlier context).step word.token =
        .next (.assignedName word.token.position (.inside earlier context)) := by
      simp only [State.step, State.inBlock, State.beginStatement, word.kind_eq]
    have step' : (State.assignedTo word.token.position name.text
        (.inside earlier context)).step left.token =
        .next (.operand .empty
          (.assignedPlace word.token.position name.text (.inside earlier context))) := by
      simp only [State.step, left.kind_eq]
    have resumes : (ExprContext.assignedPlace word.token.position name.text
        (.inside earlier context)).resume subscript.tree right.token =
        .next (.assignedElement word.token.position name.text subscript.tree
          (.inside earlier context)) := by
      simp only [ExprContext.resume, right.kind_eq]
    have step'' : (State.assignedElement word.token.position name.text subscript.tree
        (.inside earlier context)).step equal.token =
        .next (.operand .empty (.assignedValue word.token.position name.text (some subscript.tree)
          (.inside earlier context))) := by
      simp only [State.step, equal.kind_eq]
    rw [Statement.onto, Statement.tree, State.after_cons step,
      State.after_cons (assignedName_step _ name), State.after_cons step',
      subscript.passes_to right rfl resumes, State.after_cons step'']
    refine value.passes_to stop rfl ?_
    simp only [ExprContext.resume, stop.kind_eq]
    rfl
  | .perform word call stop, earlier, context, t, ts, _ => by
    have step : (State.block earlier context).step word.token =
        .next (.operand .empty (.performed word.token.position (.inside earlier context))) := by
      simp only [State.step, State.inBlock, State.beginStatement, word.kind_eq]
    rw [Statement.onto, Statement.tree, State.after_cons step]
    refine call.passes_to stop rfl ?_
    simp only [ExprContext.resume, stop.kind_eq]
    rfl
  | .ifThen word left condition right body, earlier, context, t, ts, stops => by
    have step : (State.block earlier context).step word.token =
        .next (.openIf (.inside earlier context)) := by
      simp only [State.step, State.inBlock, State.beginStatement, word.kind_eq]
    have last : (State.consequentDone condition.tree body.trees (.inside earlier context)).step t =
        (State.block (.ifThen condition.tree body.trees :: earlier) context).step t := by
      simp only [State.step, State.afterStatement]
    rw [Statement.onto, Statement.tree, State.after_cons step,
      condition_passes left condition right, Block.passes body rfl]
    exact State.after_congr last ts
  | .ifElse word left condition right body otherwise alternative, earlier, context, t, ts, _ => by
    have step : (State.block earlier context).step word.token =
        .next (.openIf (.inside earlier context)) := by
      simp only [State.step, State.inBlock, State.beginStatement, word.kind_eq]
    have step' : (State.consequentDone condition.tree body.trees (.inside earlier context)).step
        otherwise.token = .next (.openBlock
          (.alternative condition.tree body.trees (.inside earlier context))) := by
      simp only [State.step, otherwise.kind_eq]
    rw [Statement.onto, Statement.tree, State.after_cons step,
      condition_passes left condition right, Block.passes body rfl, State.after_cons step',
      Block.passes alternative rfl]
  | .repeatWhile word left condition right body, earlier, context, t, ts, _ => by
    have step : (State.block earlier context).step word.token =
        .next (.openWhile (.inside earlier context)) := by
      simp only [State.step, State.inBlock, State.beginStatement, word.kind_eq]
    have step' : (State.openWhile (.inside earlier context)).step left.token =
        .next (.operand .empty (.whileCondition (.inside earlier context))) := by
      simp only [State.step, left.kind_eq]
    have resumes : (ExprContext.whileCondition (.inside earlier context)).resume condition.tree
        right.token = .next (.openBlock (.loop condition.tree (.inside earlier context))) := by
      simp only [ExprContext.resume, right.kind_eq]
    rw [Statement.onto, Statement.tree, State.after_cons step, State.after_cons step',
      condition.passes_to right rfl resumes, Block.passes body rfl]
  | .giveBack word stop, earlier, context, t, ts, _ => by
    have step : (State.block earlier context).step word.token =
        .next (.givenBack word.token.position (.inside earlier context)) := by
      simp only [State.step, State.inBlock, State.beginStatement, word.kind_eq]
    have step' : (State.givenBack word.token.position (.inside earlier context)).step stop.token =
        .next (.block (.giveBack none (some word.token.position) :: earlier) context) := by
      simp only [State.step, stop.kind_eq, StmtContext.resume]
    rw [Statement.onto, Statement.tree, State.after_cons step, State.after_cons step']
  | .giveBackValue word value stop, earlier, context, t, ts, _ => by
    have step : (State.block earlier context).step word.token =
        .next (.givenBack word.token.position (.inside earlier context)) := by
      simp only [State.step, State.inBlock, State.beginStatement, word.kind_eq]
    obtain ⟨u, us, onto, opens⟩ := value.onto_eq_cons (stop.token :: t :: ts)
    have same : (State.givenBack word.token.position (.inside earlier context)).step u =
        (State.operand .empty
          (.givenBack word.token.position (.inside earlier context))).step u := by
      simp only [State.step]
      split
      · next kind => rw [kind] at opens; cases opens
      · rfl
    rw [Statement.onto, Statement.tree, State.after_cons step, onto, State.after_congr same, ← onto]
    refine value.passes_to stop rfl ?_
    simp only [ExprContext.resume, stop.kind_eq]
    rfl

/-- A block is read with the brace behind it. -/
theorem Block.passes : ∀ (b : Block) {context : BlockContext .class_} {s' : State .class_}
    {ts : List Token}, context.resume b.trees = .next s' →
    (State.openBlock context).after (b.onto ts) = s'.after ts
  | .mk left statements right, context, s', ts, resumes => by
    have step : (State.openBlock context).step left.token = .next (.block [] context) := by
      simp only [State.step, left.kind_eq]
    have step' : (State.block (statements.trees.reverse ++ []) context).step right.token =
        .next s' := by
      simp only [State.step, State.inBlock, right.kind_eq, List.append_nil, List.reverse_reverse]
      exact resumes
    rw [Block.onto, State.after_cons step,
      Statements.passes statements (brace_stops right), State.after_cons step']

/-- Statements are read in a block, up to a token that is not `else`. -/
theorem Statements.passes : ∀ (ss : Statements) {earlier : List Stmt}
    {context : BlockContext .class_} {t : Token} {ts : List Token}, t.kind ≠ .keyword .else_ →
    (State.block earlier context).after (ss.onto (t :: ts)) =
      (State.block (ss.trees.reverse ++ earlier) context).after (t :: ts)
  | .nil, earlier, context, t, ts, _ => by
    rw [Statements.onto, Statements.trees]
    rfl
  | .cons first rest, earlier, context, t, ts, stops => by
    obtain ⟨u, us, onto, stops'⟩ := rest.onto_eq_cons stops ts
    rw [Statements.onto, Statements.trees, onto, Statement.passes first stops', ← onto,
      Statements.passes rest stops, List.reverse_cons, List.append_assoc, List.singleton_append]

end

/-! ### Classes -/

theorem ParameterPart.passes (p : ParameterPart) (routine : OpenRoutine) :
    (State.parameterType routine).after (p.onto ts) =
      (State.moreParameters (routine.add p.tree)).after ts := by
  have step : (State.parameterType routine).step p.type.token =
      .next (.parameterName routine p.type.tree) := by
    simp only [State.step, State.beginParameter, p.type.type?_eq]
  have step' : (State.parameterName routine p.type.tree).step p.name.token =
      .next (.moreParameters (routine.add p.tree)) := by
    simp only [State.step, p.name.kind_eq]
    rfl
  rw [onto, State.after_cons step, State.after_cons step']

theorem MoreParameters.passes (right : Mark .closeParen) :
    ∀ (more : MoreParameters) (routine : OpenRoutine),
    (State.moreParameters routine).after (more.onto (right.token :: ts)) =
      (State.openBlock (.body { routine with
        parameters := (more.map (·.2.tree)).reverse ++ routine.parameters })).after ts
  | [], routine => by
    have step : (State.moreParameters routine).step right.token =
        .next (.openBlock (.body routine)) := by
      simp only [State.step, right.kind_eq]
    rw [MoreParameters.onto, State.after_cons step]
    rfl
  | (comma, p) :: more, routine => by
    have step : (State.moreParameters routine).step comma.token =
        .next (.parameterType routine) := by
      simp only [State.step, comma.kind_eq]
    rw [MoreParameters.onto, State.after_cons step, p.passes, MoreParameters.passes right more,
      List.map_cons, List.reverse_cons, List.append_assoc]
    rfl

/-- Parameters are read with the parenthesis that closes them. -/
theorem Parameters.passes (ps : Parameters) (right : Mark .closeParen) (routine : OpenRoutine) :
    (State.firstParameter routine).after (ps.onto (right.token :: ts)) =
      (State.openBlock (.body { routine with
        parameters := ps.trees.reverse ++ routine.parameters })).after ts := by
  cases ps with
  | none =>
    have step : (State.firstParameter routine).step right.token =
        .next (.openBlock (.body routine)) := by
      simp only [State.step, right.kind_eq]
    rw [onto, State.after_cons step]
    rfl
  | some first more =>
    have same : (State.firstParameter routine).step first.type.token =
        (State.parameterType routine).step first.type.token := by
      cases type : first.type with
      | int w | char w | boolean w => simp only [VariableType.token, State.step, w.kind_eq]
      | named n => simp only [VariableType.token, State.step, n.kind_eq]
    rw [onto, ParameterPart.onto, State.after_congr same, ← ParameterPart.onto, first.passes,
      MoreParameters.passes right more, trees, List.reverse_cons, List.append_assoc]
    rfl

/-- A routine is read from its name on. -/
theorem Signature.passes (s : Signature) (owner : OpenClass) (kind : RoutineKind)
    (place : Position) (type : JackType) :
    (State.routineName owner kind place type).after (s.onto ts) =
      (State.members (owner.add (.routine (s.tree kind type place)))).after ts := by
  have step : (State.routineName owner kind place type).step s.name.token =
      .next (.openParameters ⟨owner, kind, place, type, s.name.text, []⟩) := by
    simp only [State.step, s.name.kind_eq, Name.text]
  have step' : (State.openParameters ⟨owner, kind, place, type, s.name.text, []⟩).step
      s.left.token = .next (.firstParameter ⟨owner, kind, place, type, s.name.text, []⟩) := by
    simp only [State.step, s.left.kind_eq]
  rw [onto, State.after_cons step, State.after_cons step', s.parameters.passes]
  refine s.body.passes ?_
  rw [BlockContext.resume, OpenRoutine.close, List.append_nil, List.reverse_reverse]
  rfl

/-- A routine is read from the word that opens it on. -/
theorem Signature.passes_member (s : Signature) (owner : OpenClass) {kind : RoutineKind}
    {word type : Token} {result : JackType} (opens : word.routine? = some kind)
    (h : type.type? (kind ≠ .constructor) = some result) :
    (State.members owner).after (word :: type :: s.onto ts) =
      (State.members (owner.add (.routine (s.tree kind result word.position)))).after ts := by
  have step : (State.members owner).step word = .next (.routineType owner kind word.position) := by
    have opens' := opens
    unfold Token.routine? at opens'
    split at opens'
    case h_4 => cases opens'
    all_goals next kind_eq => simp only [State.step, State.inClass, kind_eq, opens]
  have step' : (State.routineType owner kind word.position).step type =
      .next (.routineName owner kind word.position result) := by
    simp only [State.step, h]
  rw [State.after_cons step, State.after_cons step', s.passes]

/-- A member is read in a class. -/
theorem MemberPart.passes (m : MemberPart) (owner : OpenClass) :
    (State.members owner).after (m.onto ts) = (State.members (owner.add m.tree)).after ts := by
  cases m with
  | shared word declared =>
    have step : (State.members owner).step word.token =
        .next (.declaredType word.token.position (.shared owner)) := by
      simp only [State.step, State.inClass, word.kind_eq]
    rw [onto, State.after_cons step]
    exact declared.passes rfl
  | perObject word declared =>
    have step : (State.members owner).step word.token =
        .next (.declaredType word.token.position (.perObject owner)) := by
      simp only [State.step, State.inClass, word.kind_eq]
    rw [onto, State.after_cons step]
    exact declared.passes rfl
  | function word type signature =>
    exact signature.passes_member owner (by rw [Token.routine?, word.kind_eq]) type.type?_eq
  | method word type signature =>
    exact signature.passes_member owner (by rw [Token.routine?, word.kind_eq]) type.type?_eq
  | constructor word type signature =>
    exact signature.passes_member owner (by rw [Token.routine?, word.kind_eq]) (type.type?_eq false)

theorem membersOnto_passes : ∀ (ms : List MemberPart) (owner : OpenClass),
    (State.members owner).after (membersOnto ms ts) =
      (State.members { owner with
        members := (ms.map MemberPart.tree).reverse ++ owner.members }).after ts
  | [], owner => rfl
  | m :: ms, owner => by
    rw [membersOnto, m.passes, membersOnto_passes ms, List.map_cons, List.reverse_cons,
      List.append_assoc]
    rfl

/-- **The tokens of a class are read to the tree it denotes.** -/
theorem Class.passes (c : Class) : State.classWord.after c.tokens = some (.classDone c.tree) := by
  have step : State.classWord.step c.word.token = .next (.className c.word.token.position) := by
    simp only [State.step, c.word.kind_eq]
  have step' : (State.className c.word.token.position).step c.name.token =
      .next (.openClass c.word.token.position c.name.text) := by
    simp only [State.step, c.name.kind_eq, Name.text]
  have step'' : (State.openClass c.word.token.position c.name.text).step c.left.token =
      .next (.members ⟨c.word.token.position, c.name.text, []⟩) := by
    simp only [State.step, c.left.kind_eq]
  have last (owner : OpenClass) : (State.members owner).step c.right.token =
      .next (.classDone owner.close) := by
    simp only [State.step, State.inClass, c.right.kind_eq]
  rw [tokens, State.after_cons step, State.after_cons step', State.after_cons step'',
    membersOnto_passes, State.after_cons (last _), State.after, OpenClass.close, List.append_nil,
    List.reverse_reverse]
  rfl

end Grammar

end JackCompiler
