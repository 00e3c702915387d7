import JackCompiler.Proofs.Grammar.Derivation
import JackCompiler.Proofs.Syntax.Steps
/-!
# What is read is derived by the grammar

What the tokens ahead have to be for a state to come to a given class: the rest of the part under
way is derived, and then the rest of what surrounds it, from the inside out. If what is behind a
step finishes the class, then so does the token in front of it. From the end of the text this goes
back to the first token, where nothing has been read and all of the class is derived.

        operand      unary operations …          behind a primary   subscript? operations …
        in a block   statements '}' …             in a class         members '}'
-/

namespace JackCompiler

open Grammar

/-! ### What finishes an expression, a block, a class -/

/-- Behind an operand: operators with operands, and then what the expression is for. -/
def BehindOperand (goal : Expr → List Token → Prop) (front : Pending) (e : Expr)
    (ts : List Token) : Prop :=
  ∃ (ops : Operations) (us : List Token), ts = ops.onto us ∧ goal (ops.apply (front.close e)) us

/-- Behind a primary: a subscript or none, and the rest of the expression. -/
def BehindPrimary (goal : Expr → List Token → Prop) (front : Pending) (e : Expr)
    (ts : List Token) : Prop :=
  BehindOperand goal front e ts ∨
    ∃ (left : Mark .openBracket) (subscript : Expression) (right : Mark .closeBracket)
      (us : List Token), ts = left.token :: subscript.onto (right.token :: us) ∧
        BehindOperand goal front (.index e subscript.tree) us

/-- In front of an operand: that operand, and the rest of the expression. -/
def InOperand (goal : Expr → List Token → Prop) (front : Pending) (ts : List Token) : Prop :=
  ∃ (u : Unary) (us : List Token), ts = u.onto us ∧ BehindOperand goal front u.tree us

/-- Behind the parenthesis that opens arguments: the arguments, and the rest of the expression. -/
def InArguments (goal : Expr → List Token → Prop) (callee : Callee) (front : Pending)
    (ts : List Token) : Prop :=
  ∃ (arguments : Arguments) (right : Mark .closeParen) (us : List Token),
    ts = arguments.onto (right.token :: us) ∧
      BehindPrimary goal front (callee.call arguments.trees) us

/-- Behind a dot: a name and arguments, and the rest of the expression. -/
def InMember (goal : Expr → List Token → Prop) (receiver : Receiver) (front : Pending)
    (ts : List Token) : Prop :=
  ∃ (name : Name) (left : Mark .openParen) (us : List Token),
    ts = name.token :: left.token :: us ∧ InArguments goal (.member receiver name.text) front us

/-- In a block, behind some statements: further ones, and then what the block is for. -/
def InBlock (goal : List Stmt → List Token → Prop) (earlier : List Stmt) (ts : List Token) :
    Prop :=
  ∃ (ss : Statements) (right : Mark .closeBrace) (us : List Token),
    ts = ss.onto (right.token :: us) ∧ goal (earlier.reverse ++ ss.trees) us

variable (tree : ClassTree)

/-- In a class, behind some members: further ones up to the brace, and the class is the tree. -/
def InClass (owner : OpenClass) (ts : List Token) : Prop :=
  ∃ (ms : List MemberPart) (right : Mark .closeBrace), ts = membersOnto ms [right.token] ∧
    tree = ⟨owner.name, owner.members.reverse ++ ms.map MemberPart.tree, some owner.place⟩

mutual

/-- What finishes the class behind a statement. -/
def StmtContext.Finishes {g : Goal} : StmtContext g → Stmt → List Token → Prop
  | .alone, _, _ => False
  | .inside earlier block, s, ts =>
    ∃ (ss : Statements) (right : Mark .closeBrace) (us : List Token),
      ts = ss.onto (right.token :: us) ∧ block.Finishes ((s :: earlier).reverse ++ ss.trees) us

/-- What finishes the class behind a block. -/
def BlockContext.Finishes {g : Goal} : BlockContext g → List Stmt → List Token → Prop
  | .body routine, ss, ts => InClass tree (routine.close ss) ts
  | .consequent condition outer, ss, ts =>
    outer.Finishes (.ifThen condition ss) ts ∨
      ∃ (otherwise : Reserved .else_) (alternative : Block) (us : List Token),
        ts = otherwise.token :: alternative.onto us ∧
          outer.Finishes (.ifElse condition ss alternative.trees) us
  | .alternative condition first outer, ss, ts => outer.Finishes (.ifElse condition first ss) ts
  | .loop condition outer, ss, ts => outer.Finishes (.repeatWhile condition ss) ts

end

/-- What finishes the class behind a declaration. -/
def DeclarationContext.Finishes {g : Goal} : DeclarationContext g → Declaration → List Token → Prop
  | .shared owner, d, ts => InClass tree (owner.add (.shared d)) ts
  | .perObject owner, d, ts => InClass tree (owner.add (.perObject d)) ts
  | .inRoutine outer, d, ts => outer.Finishes tree (.declare d) ts

/-- A block, and then what finishes the class behind it. -/
def BlockContext.FinishesFrom {g : Goal} (context : BlockContext g) (ts : List Token) : Prop :=
  ∃ (b : Block) (us : List Token), ts = b.onto us ∧ context.Finishes tree b.trees us

/-- What finishes the class behind an expression. -/
def ExprContext.Finishes {g : Goal} : ExprContext g → Expr → List Token → Prop
  | .alone, _, _ => False
  | .group outer context, e, ts =>
    ∃ (right : Mark .closeParen) (us : List Token), ts = right.token :: us ∧
      BehindPrimary context.Finishes outer e us
  | .subscript target outer context, e, ts =>
    ∃ (right : Mark .closeBracket) (us : List Token), ts = right.token :: us ∧
      BehindOperand context.Finishes outer (.index target e) us
  | .argument callee earlier outer context, e, ts =>
    ∃ (more : MoreArguments) (right : Mark .closeParen) (us : List Token),
      ts = more.onto (right.token :: us) ∧
        BehindPrimary context.Finishes outer
          (callee.call ((e :: earlier).reverse ++ more.trees)) us
  | .assignedPlace place name outer, e, ts =>
    ∃ (right : Mark .closeBracket) (equal : Mark .equal) (value : Expression)
      (stop : Mark .semicolon) (us : List Token),
      ts = right.token :: equal.token :: value.onto (stop.token :: us) ∧
        outer.Finishes tree (.assignElement name e value.tree (some place)) us
  | .assignedValue place name element outer, e, ts =>
    ∃ (stop : Mark .semicolon) (us : List Token), ts = stop.token :: us ∧
      outer.Finishes tree (.assignment place name element e) us
  | .performed place outer, e, ts =>
    ∃ (stop : Mark .semicolon) (us : List Token), ts = stop.token :: us ∧
      outer.Finishes tree (.perform e (some place)) us
  | .givenBack place outer, e, ts =>
    ∃ (stop : Mark .semicolon) (us : List Token), ts = stop.token :: us ∧
      outer.Finishes tree (.giveBack (some e) (some place)) us
  | .ifCondition outer, e, ts =>
    ∃ (right : Mark .closeParen) (us : List Token), ts = right.token :: us ∧
      (BlockContext.consequent e outer).FinishesFrom tree us
  | .whileCondition outer, e, ts =>
    ∃ (right : Mark .closeParen) (us : List Token), ts = right.token :: us ∧
      (BlockContext.loop e outer).FinishesFrom tree us

/-! ### What finishes the class from a state -/

/-- Names behind commas up to the semicolon, and then what finishes the class. -/
def DeclarationContext.FinishesFrom (context : DeclarationContext .class_) (place : Position)
    (type : JackType) (names : List String) (ts : List Token) : Prop :=
  ∃ (more : MoreNames) (stop : Mark .semicolon) (us : List Token),
    ts = more.onto (stop.token :: us) ∧
      context.Finishes tree ⟨type, names.reverse ++ more.map (·.2.text), some place⟩ us

/-- Behind the name of an assignment: a value, with a subscript in front or without. -/
def StmtContext.FinishesAssignment (context : StmtContext .class_) (place : Position)
    (name : String) (ts : List Token) : Prop :=
  (∃ (left : Mark .openBracket) (us : List Token), ts = left.token :: us ∧
    InOperand ((ExprContext.assignedPlace place name context).Finishes tree) .empty us) ∨
  ∃ (equal : Mark .equal) (us : List Token), ts = equal.token :: us ∧
    InOperand ((ExprContext.assignedValue place name none context).Finishes tree) .empty us

/-- Behind parameters: the parenthesis, the body, and the rest of the class. -/
def OpenRoutine.Finishes (routine : OpenRoutine) (ps : List Parameter) (ts : List Token) : Prop :=
  ∃ (right : Mark .closeParen) (us : List Token), ts = right.token :: us ∧
    (BlockContext.body { routine with
      parameters := ps.reverse ++ routine.parameters }).FinishesFrom tree us

/-- What the tokens ahead of a state have to be so that the class is the tree. -/
def State.Finishes : State .class_ → List Token → Prop
  | .operand front context, ts => InOperand (context.Finishes tree) front ts
  | .named name place front context, ts =>
    (∃ (left : Mark .openParen) (us : List Token), ts = left.token :: us ∧
      InArguments (context.Finishes tree) (.own name place) front us) ∨
    (∃ (dot : Mark .dot) (us : List Token), ts = dot.token :: us ∧
      InMember (context.Finishes tree) (.named name place) front us) ∨
    BehindPrimary (context.Finishes tree) front (.reference name (some place)) ts
  | .self place front context, ts =>
    (∃ (dot : Mark .dot) (us : List Token), ts = dot.token :: us ∧
      InMember (context.Finishes tree) (.this place) front us) ∨
    BehindPrimary (context.Finishes tree) front (.this (some place)) ts
  | .primary e front context, ts => BehindPrimary (context.Finishes tree) front e ts
  | .whole e front context, ts => BehindOperand (context.Finishes tree) front e ts
  | .memberName receiver front context, ts => InMember (context.Finishes tree) receiver front ts
  | .openArguments callee front context, ts =>
    ∃ (left : Mark .openParen) (us : List Token), ts = left.token :: us ∧
      InArguments (context.Finishes tree) callee front us
  | .firstArgument callee front context, ts => InArguments (context.Finishes tree) callee front ts
  | .statement context, ts =>
    ∃ (s : Statement) (us : List Token), ts = s.onto us ∧ context.Finishes tree s.tree us
  | .openBlock context, ts => context.FinishesFrom tree ts
  | .block earlier context, ts => InBlock (context.Finishes tree) earlier ts
  | .assignedName place context, ts =>
    ∃ (name : Name) (us : List Token), ts = name.token :: us ∧
      context.FinishesAssignment tree place name.text us
  | .assignedTo place name context, ts => context.FinishesAssignment tree place name ts
  | .assignedElement place name subscript context, ts =>
    ∃ (equal : Mark .equal) (us : List Token), ts = equal.token :: us ∧
      InOperand ((ExprContext.assignedValue place name (some subscript) context).Finishes tree)
        .empty us
  | .givenBack place context, ts =>
    (∃ (stop : Mark .semicolon) (us : List Token), ts = stop.token :: us ∧
      context.Finishes tree (.giveBack none (some place)) us) ∨
    InOperand ((ExprContext.givenBack place context).Finishes tree) .empty ts
  | .openIf context, ts =>
    ∃ (left : Mark .openParen) (us : List Token), ts = left.token :: us ∧
      InOperand ((ExprContext.ifCondition context).Finishes tree) .empty us
  | .openWhile context, ts =>
    ∃ (left : Mark .openParen) (us : List Token), ts = left.token :: us ∧
      InOperand ((ExprContext.whileCondition context).Finishes tree) .empty us
  | .consequentDone condition body context, ts =>
    (BlockContext.consequent condition context).Finishes tree body ts
  | .declaredType place context, ts =>
    ∃ (v : Variables) (us : List Token), ts = v.onto us ∧
      context.Finishes tree (v.tree place) us
  | .declaredName place type names context, ts =>
    ∃ (name : Name) (us : List Token), ts = name.token :: us ∧
      context.FinishesFrom tree place type (name.text :: names) us
  | .declaredMore place type names context, ts => context.FinishesFrom tree place type names ts
  | .classWord, ts => ∃ c : Grammar.Class, ts = c.tokens ∧ tree = c.tree
  | .className place, ts =>
    ∃ (name : Name) (left : Mark .openBrace) (us : List Token),
      ts = name.token :: left.token :: us ∧ InClass tree ⟨place, name.text, []⟩ us
  | .openClass place name, ts =>
    ∃ (left : Mark .openBrace) (us : List Token), ts = left.token :: us ∧
      InClass tree ⟨place, name, []⟩ us
  | .members owner, ts => InClass tree owner ts
  | .routineType owner kind place, ts =>
    ∃ (t : Token) (type : JackType) (s : Signature) (us : List Token),
      t.type? (kind ≠ .constructor) = some type ∧ ts = t :: s.onto us ∧
        InClass tree (owner.add (.routine (s.tree kind type place))) us
  | .routineName owner kind place type, ts =>
    ∃ (s : Signature) (us : List Token), ts = s.onto us ∧
      InClass tree (owner.add (.routine (s.tree kind type place))) us
  | .openParameters routine, ts =>
    ∃ (left : Mark .openParen) (ps : Parameters) (us : List Token),
      ts = left.token :: ps.onto us ∧ routine.Finishes tree ps.trees us
  | .firstParameter routine, ts =>
    ∃ (ps : Parameters) (us : List Token), ts = ps.onto us ∧ routine.Finishes tree ps.trees us
  | .parameterType routine, ts =>
    ∃ (p : ParameterPart) (more : MoreParameters) (us : List Token),
      ts = p.onto (more.onto us) ∧ routine.Finishes tree (p.tree :: more.map (·.2.tree)) us
  | .parameterName routine type, ts =>
    ∃ (name : Name) (more : MoreParameters) (us : List Token), ts = name.token :: more.onto us ∧
      routine.Finishes tree
        (⟨type, name.text, some name.token.position⟩ :: more.map (·.2.tree)) us
  | .moreParameters routine, ts =>
    ∃ (more : MoreParameters) (us : List Token), ts = more.onto us ∧
      routine.Finishes tree (more.map (·.2.tree)) us
  | .classDone c, ts => ts = [] ∧ tree = c

/-- What the tokens behind a step have to be. -/
def Outcome.Finishes (o : Outcome .class_) (ts : List Token) : Prop :=
  match o with
  | .next s => s.Finishes tree ts
  | _ => False

variable {tree : ClassTree} {t : Token} {ts : List Token}

/-! ### One token earlier -/

theorem InOperand.expression {goal : Expr → List Token → Prop} (h : InOperand goal .empty ts) :
    ∃ (e : Expression) (us : List Token), ts = e.onto us ∧ goal e.tree us := by
  obtain ⟨u, us, rfl, ops, vs, rfl, h⟩ := h
  exact ⟨.mk u ops, vs, rfl, h⟩

/-- An operator in front of the operand under way belongs to that operand. -/
theorem BehindOperand.sign {goal : Expr → List Token → Prop} {front : Pending} {op : UnaryOp}
    {e : Expr} (h : BehindOperand goal (front.sign op) e ts) :
    BehindOperand goal front (.unary op e) ts := h

theorem StmtContext.resume_finishes {context : StmtContext .class_} {s : Stmt}
    (h : (context.resume s).Finishes tree ts) : context.Finishes tree s ts := by
  cases context
  exact h

theorem BlockContext.resume_finishes {context : BlockContext .class_} {ss : List Stmt}
    (h : (context.resume ss).Finishes tree ts) : context.Finishes tree ss ts := by
  cases context with
  | body => exact h
  | consequent => exact h
  | alternative => exact StmtContext.resume_finishes h
  | loop => exact StmtContext.resume_finishes h

theorem DeclarationContext.resume_finishes {context : DeclarationContext .class_} {d : Declaration}
    (h : (context.resume d).Finishes tree ts) : context.Finishes tree d ts := by
  cases context with
  | shared => exact h
  | perObject => exact h
  | inRoutine => exact StmtContext.resume_finishes h

theorem ExprContext.resume_finishes {context : ExprContext .class_} {e : Expr}
    (h : (context.resume e t).Finishes tree ts) : context.Finishes tree e (t :: ts) := by
  cases context with
  | group outer context =>
    simp only [resume] at h
    split at h
    · next kind => exact ⟨⟨t, kind⟩, ts, rfl, h⟩
    · exact h.elim
  | subscript target outer context =>
    simp only [resume] at h
    split at h
    · next kind => exact ⟨⟨t, kind⟩, ts, rfl, h⟩
    · exact h.elim
  | argument callee earlier outer context =>
    simp only [resume] at h
    split at h
    · next kind =>
      obtain ⟨argument, us, rfl, more, right, vs, rfl, rest⟩ := InOperand.expression h
      refine ⟨.cons ⟨t, kind⟩ argument more, right, vs, rfl, ?_⟩
      rwa [List.reverse_cons, List.append_assoc] at rest
    · next kind =>
      refine ⟨.nil, ⟨t, kind⟩, ts, rfl, ?_⟩
      rw [MoreArguments.trees, List.append_nil]
      exact h
    · exact h.elim
  | assignedPlace place name outer =>
    simp only [resume] at h
    split at h
    · next kind =>
      obtain ⟨equal, us, rfl, operand⟩ := h
      obtain ⟨value, vs, rfl, stop, ws, rfl, rest⟩ := InOperand.expression operand
      exact ⟨⟨t, kind⟩, equal, value, stop, ws, rfl, rest⟩
    · exact h.elim
  | assignedValue place name element outer =>
    simp only [resume] at h
    split at h
    · next kind => exact ⟨⟨t, kind⟩, ts, rfl, StmtContext.resume_finishes h⟩
    · exact h.elim
  | performed place outer =>
    simp only [resume] at h
    split at h
    · next kind => exact ⟨⟨t, kind⟩, ts, rfl, StmtContext.resume_finishes h⟩
    · exact h.elim
  | givenBack place outer =>
    simp only [resume] at h
    split at h
    · next kind => exact ⟨⟨t, kind⟩, ts, rfl, StmtContext.resume_finishes h⟩
    · exact h.elim
  | ifCondition outer =>
    simp only [resume] at h
    split at h
    · next kind => exact ⟨⟨t, kind⟩, ts, rfl, h⟩
    · exact h.elim
  | whileCondition outer =>
    simp only [resume] at h
    split at h
    · next kind => exact ⟨⟨t, kind⟩, ts, rfl, h⟩
    · exact h.elim

theorem InClass.cons {owner : OpenClass} (m : MemberPart)
    (h : InClass tree (owner.add m.tree) ts) : InClass tree owner (m.onto ts) := by
  obtain ⟨ms, right, rfl, rfl⟩ := h
  refine ⟨m :: ms, right, rfl, ?_⟩
  rw [OpenClass.add, List.reverse_cons, List.append_assoc]
  rfl

theorem variableType_of_type? {type : JackType} (h : t.type? false = some type) :
    ∃ v : VariableType, v.token = t ∧ v.tree = type := by
  unfold Token.type? at h
  split at h
  · next kind => cases h; exact ⟨.int ⟨t, kind⟩, rfl, rfl⟩
  · next kind => cases h; exact ⟨.char ⟨t, kind⟩, rfl, rfl⟩
  · next kind => cases h; exact ⟨.boolean ⟨t, kind⟩, rfl, rfl⟩
  · cases h
  · next kind => cases h; exact ⟨.named ⟨t, kind⟩, rfl, rfl⟩
  · cases h

theorem resultType_of_type? {type : JackType} (h : t.type? true = some type) :
    ∃ r : ResultType, r.token = t ∧ r.tree = type := by
  by_cases void : t.kind = .keyword .void
  · simp only [Token.type?, void, if_true] at h
    cases h
    exact ⟨.void ⟨t, void⟩, rfl, rfl⟩
  · have h : t.type? false = some type := by
      unfold Token.type? at h ⊢
      split <;> simp_all
    obtain ⟨v, token, tree⟩ := variableType_of_type? h
    exact ⟨.value v, token, tree⟩

namespace State

variable {front : Pending} {context : ExprContext .class_} {e : Expr}

theorem afterOperand_finishes (h : (afterOperand e front context t).Finishes tree ts) :
    BehindOperand (context.Finishes tree) front e (t :: ts) := by
  unfold afterOperand at h
  split at h
  · next s kind =>
    split at h
    · next op found =>
      obtain ⟨u, us, rfl, ops, vs, rfl, rest⟩ := h
      rw [binaryOp?_eq_some] at found
      exact ⟨.cons op ⟨t, found ▸ kind⟩ u ops, vs, rfl, rest⟩
    · exact ⟨.nil, _, rfl, ExprContext.resume_finishes h⟩
  · exact ⟨.nil, _, rfl, ExprContext.resume_finishes h⟩

theorem afterPrimary_finishes (h : (afterPrimary e front context t).Finishes tree ts) :
    BehindPrimary (context.Finishes tree) front e (t :: ts) := by
  unfold afterPrimary at h
  split at h
  · next kind =>
    obtain ⟨subscript, us, rfl, right, vs, rfl, rest⟩ := InOperand.expression h
    exact .inr ⟨⟨t, kind⟩, subscript, right, vs, rfl, rest⟩
  · exact .inl (afterOperand_finishes h)

theorem primary_finishes {goal : Expr → List Token → Prop} (p : Primary)
    (h : BehindPrimary goal front p.tree ts) : InOperand goal front (p.onto ts) := by
  rcases h with h | ⟨left, subscript, right, us, rfl, h⟩
  · exact ⟨.plain (.plain p), ts, rfl, h⟩
  · exact ⟨.plain (.index p left subscript right), us, rfl, h⟩

theorem beginOperand_finishes (numeric : t.kind = .integerConstant → IsDigits t.value)
    (h : (beginOperand front context t).Finishes tree ts) :
    InOperand (context.Finishes tree) front (t :: ts) := by
  unfold beginOperand at h
  split at h
  · next kind =>
    obtain ⟨u, us, rfl, rest⟩ := h
    exact ⟨.sign .negate ⟨t, kind⟩ u, us, rfl, rest⟩
  · next kind =>
    obtain ⟨u, us, rfl, rest⟩ := h
    exact ⟨.sign .not ⟨t, kind⟩ u, us, rfl, rest⟩
  · next kind =>
    obtain ⟨inner, us, rfl, right, vs, rfl, rest⟩ := InOperand.expression h
    exact primary_finishes (.group ⟨t, kind⟩ inner right) rest
  · next kind =>
    split at h
    · next n found =>
      rw [Token.constant?_digits (numeric kind)] at found
      split at found
      · next small =>
        cases found
        exact primary_finishes (.number ⟨⟨t, kind⟩, numeric kind, small⟩) h
      · cases found
    · exact h.elim
  · next kind =>
    split at h
    · next short => exact primary_finishes (.text ⟨⟨t, kind⟩, short⟩) h
    · exact h.elim
  · next kind => exact primary_finishes (.true_ ⟨t, kind⟩) h
  · next kind => exact primary_finishes (.false_ ⟨t, kind⟩) h
  · next kind => exact primary_finishes (.null ⟨t, kind⟩) h
  · next kind =>
    rcases h with ⟨dot, us, rfl, name, left, vs, rfl, arguments, right, ws, rfl, rest⟩ | rest
    · exact primary_finishes (.thisCall ⟨t, kind⟩ dot name left arguments right) rest
    · exact primary_finishes (.this ⟨t, kind⟩) rest
  · next kind =>
    rcases h with ⟨left, us, rfl, arguments, right, vs, rfl, rest⟩ |
      ⟨dot, us, rfl, name, left, vs, rfl, arguments, right, ws, rfl, rest⟩ | rest
    · exact primary_finishes (.call ⟨t, kind⟩ left arguments right) rest
    · exact primary_finishes (.memberCall ⟨t, kind⟩ dot name left arguments right) rest
    · exact primary_finishes (.name ⟨t, kind⟩) rest
  · exact h.elim

theorem beginStatement_finishes {context : StmtContext .class_}
    (h : (beginStatement context t).Finishes tree ts) :
    ∃ (s : Statement) (us : List Token), t :: ts = s.onto us ∧ context.Finishes tree s.tree us := by
  unfold beginStatement at h
  split at h
  · next kind =>
    obtain ⟨v, us, rfl, rest⟩ := h
    exact ⟨.declare ⟨t, kind⟩ v, us, rfl, rest⟩
  · next kind =>
    obtain ⟨name, us, rfl, ⟨left, vs, rfl, operand⟩ | ⟨equal, vs, rfl, operand⟩⟩ := h
    · obtain ⟨subscript, ws, rfl, right, equal, value, stop, xs, rfl, rest⟩ := operand.expression
      exact ⟨.assignElement ⟨t, kind⟩ name left subscript right equal value stop, xs, rfl, rest⟩
    · obtain ⟨value, ws, rfl, stop, xs, rfl, rest⟩ := operand.expression
      exact ⟨.assign ⟨t, kind⟩ name equal value stop, xs, rfl, rest⟩
  · next kind =>
    obtain ⟨call, us, rfl, stop, vs, rfl, rest⟩ := InOperand.expression h
    exact ⟨.perform ⟨t, kind⟩ call stop, vs, rfl, rest⟩
  · next kind =>
    obtain ⟨left, us, rfl, operand⟩ := h
    obtain ⟨condition, vs, rfl, right, ws, rfl, body, xs, rfl, rest⟩ := operand.expression
    rcases rest with rest | ⟨otherwise, alternative, ys, rfl, rest⟩
    · exact ⟨.ifThen ⟨t, kind⟩ left condition right body, xs, rfl, rest⟩
    · exact ⟨.ifElse ⟨t, kind⟩ left condition right body otherwise alternative, ys, rfl, rest⟩
  · next kind =>
    obtain ⟨left, us, rfl, operand⟩ := h
    obtain ⟨condition, vs, rfl, right, ws, rfl, body, xs, rfl, rest⟩ := operand.expression
    exact ⟨.repeatWhile ⟨t, kind⟩ left condition right body, xs, rfl, rest⟩
  · next kind =>
    rcases h with ⟨stop, us, rfl, rest⟩ | operand
    · exact ⟨.giveBack ⟨t, kind⟩ stop, us, rfl, rest⟩
    · obtain ⟨value, us, rfl, stop, vs, rfl, rest⟩ := operand.expression
      exact ⟨.giveBackValue ⟨t, kind⟩ value stop, vs, rfl, rest⟩
  · exact h.elim

theorem inBlock_finishes {earlier : List Stmt} {context : BlockContext .class_}
    (h : (inBlock earlier context t).Finishes tree ts) :
    InBlock (context.Finishes tree) earlier (t :: ts) := by
  unfold inBlock at h
  split at h
  · next kind =>
    refine ⟨.nil, ⟨t, kind⟩, ts, rfl, ?_⟩
    rw [Statements.trees, List.append_nil]
    exact BlockContext.resume_finishes h
  · obtain ⟨s, us, same, ss, right, vs, rfl, rest⟩ := beginStatement_finishes h
    refine ⟨.cons s ss, right, vs, same, ?_⟩
    rwa [List.reverse_cons, List.append_assoc] at rest

theorem afterStatement_finishes {s : Stmt} {context : StmtContext .class_}
    (h : (afterStatement s context t).Finishes tree ts) : context.Finishes tree s (t :: ts) := by
  cases context
  exact inBlock_finishes h

theorem inClass_finishes {owner : OpenClass} (h : (inClass owner t).Finishes tree ts) :
    InClass tree owner (t :: ts) := by
  unfold inClass at h
  split at h
  · next kind =>
    obtain ⟨rfl, rfl⟩ := h
    exact ⟨[], ⟨t, kind⟩, rfl, by rw [List.map_nil, List.append_nil]; rfl⟩
  · next kind =>
    obtain ⟨v, us, rfl, rest⟩ := h
    exact InClass.cons (.shared ⟨t, kind⟩ v) rest
  · next kind =>
    obtain ⟨v, us, rfl, rest⟩ := h
    exact InClass.cons (.perObject ⟨t, kind⟩ v) rest
  · split at h
    · next kind opens =>
      obtain ⟨_, type, s, us, found, rfl, rest⟩ := h
      unfold Token.routine? at opens
      split at opens
      · next word =>
        cases opens
        obtain ⟨r, rfl, rfl⟩ := resultType_of_type? found
        exact InClass.cons (.function ⟨t, word⟩ r s) rest
      · next word =>
        cases opens
        obtain ⟨r, rfl, rfl⟩ := resultType_of_type? found
        exact InClass.cons (.method ⟨t, word⟩ r s) rest
      · next word =>
        cases opens
        obtain ⟨v, rfl, rfl⟩ := variableType_of_type? found
        exact InClass.cons (.constructor ⟨t, word⟩ v s) rest
      · cases opens
    · exact h.elim

theorem beginParameter_finishes {routine : OpenRoutine}
    (h : (beginParameter routine t).Finishes tree ts) :
    (parameterType routine).Finishes tree (t :: ts) := by
  unfold beginParameter at h
  split at h
  · next found =>
    obtain ⟨v, rfl, rfl⟩ := variableType_of_type? found
    obtain ⟨name, more, us, rfl, rest⟩ := h
    exact ⟨⟨v, name⟩, more, us, rfl, rest⟩
  · exact h.elim

/-- **If what is behind a step finishes the class, so does the token in front of it.** -/
theorem step_finishes (numeric : t.kind = .integerConstant → IsDigits t.value)
    {s : State .class_} (h : (s.step t).Finishes tree ts) : s.Finishes tree (t :: ts) := by
  cases s with
  | operand => exact beginOperand_finishes numeric h
  | primary => exact afterPrimary_finishes h
  | whole => exact afterOperand_finishes h
  | statement => exact beginStatement_finishes h
  | block => exact inBlock_finishes h
  | members => exact inClass_finishes h
  | parameterType => exact beginParameter_finishes h
  | classDone => exact h.elim
  | named name place front context =>
    simp only [step] at h
    split at h
    · next kind => exact .inr (.inl ⟨⟨t, kind⟩, ts, rfl, h⟩)
    · next kind => exact .inl ⟨⟨t, kind⟩, ts, rfl, h⟩
    · exact .inr (.inr (afterPrimary_finishes h))
  | self place front context =>
    simp only [step] at h
    split at h
    · next kind => exact .inl ⟨⟨t, kind⟩, ts, rfl, h⟩
    · exact .inr (afterPrimary_finishes h)
  | memberName receiver front context =>
    simp only [step] at h
    split at h
    · next kind =>
      obtain ⟨left, us, rfl, rest⟩ := h
      exact ⟨⟨t, kind⟩, left, us, rfl, rest⟩
    · exact h.elim
  | openArguments callee front context =>
    simp only [step] at h
    split at h
    · next kind => exact ⟨⟨t, kind⟩, ts, rfl, h⟩
    · exact h.elim
  | firstArgument callee front context =>
    simp only [step] at h
    split at h
    · next kind => exact ⟨.none, ⟨t, kind⟩, ts, rfl, h⟩
    · obtain ⟨e, us, same, more, right, vs, rfl, rest⟩ :=
        (beginOperand_finishes numeric h).expression
      exact ⟨.some e more, right, vs, same, rest⟩
  | openBlock context =>
    simp only [step] at h
    split at h
    · next kind =>
      obtain ⟨ss, right, us, rfl, rest⟩ := h
      exact ⟨.mk ⟨t, kind⟩ ss right, us, rfl, rest⟩
    · exact h.elim
  | assignedName place context =>
    simp only [step] at h
    split at h
    · next kind => exact ⟨⟨t, kind⟩, ts, rfl, h⟩
    · exact h.elim
  | assignedTo place name context =>
    simp only [step] at h
    split at h
    · next kind => exact .inl ⟨⟨t, kind⟩, ts, rfl, h⟩
    · next kind => exact .inr ⟨⟨t, kind⟩, ts, rfl, h⟩
    · exact h.elim
  | assignedElement place name subscript context =>
    simp only [step] at h
    split at h
    · next kind => exact ⟨⟨t, kind⟩, ts, rfl, h⟩
    · exact h.elim
  | givenBack place context =>
    simp only [step] at h
    split at h
    · next kind => exact .inl ⟨⟨t, kind⟩, ts, rfl, StmtContext.resume_finishes h⟩
    · exact .inr (beginOperand_finishes numeric h)
  | openIf context =>
    simp only [step] at h
    split at h
    · next kind => exact ⟨⟨t, kind⟩, ts, rfl, h⟩
    · exact h.elim
  | openWhile context =>
    simp only [step] at h
    split at h
    · next kind => exact ⟨⟨t, kind⟩, ts, rfl, h⟩
    · exact h.elim
  | consequentDone condition body context =>
    simp only [step] at h
    split at h
    · next kind =>
      obtain ⟨alternative, us, rfl, rest⟩ := h
      exact .inr ⟨⟨t, kind⟩, alternative, us, rfl, rest⟩
    · exact .inl (afterStatement_finishes h)
  | declaredType place context =>
    simp only [step] at h
    split at h
    · next found =>
      obtain ⟨v, rfl, rfl⟩ := variableType_of_type? found
      obtain ⟨name, us, rfl, more, stop, vs, rfl, rest⟩ := h
      exact ⟨⟨v, name, more, stop⟩, vs, rfl, rest⟩
    · exact h.elim
  | declaredName place type names context =>
    simp only [step] at h
    split at h
    · next kind => exact ⟨⟨t, kind⟩, ts, rfl, h⟩
    · exact h.elim
  | declaredMore place type names context =>
    simp only [step] at h
    split at h
    · next kind =>
      obtain ⟨name, us, rfl, more, stop, vs, rfl, rest⟩ := h
      refine ⟨(⟨t, kind⟩, name) :: more, stop, vs, rfl, ?_⟩
      rwa [List.reverse_cons, List.append_assoc] at rest
    · next kind =>
      refine ⟨[], ⟨t, kind⟩, ts, rfl, ?_⟩
      rw [List.map_nil, List.append_nil]
      exact DeclarationContext.resume_finishes h
    · exact h.elim
  | classWord =>
    simp only [step] at h
    split at h
    · next kind =>
      obtain ⟨name, left, us, rfl, ms, right, rfl, rfl⟩ := h
      exact ⟨⟨⟨t, kind⟩, name, left, ms, right⟩, rfl, rfl⟩
    · exact h.elim
  | className place =>
    simp only [step] at h
    split at h
    · next kind =>
      obtain ⟨left, us, rfl, rest⟩ := h
      exact ⟨⟨t, kind⟩, left, us, rfl, rest⟩
    · exact h.elim
  | openClass place name =>
    simp only [step] at h
    split at h
    · next kind => exact ⟨⟨t, kind⟩, ts, rfl, h⟩
    · exact h.elim
  | routineType owner kind place =>
    simp only [step] at h
    split at h
    · next type found =>
      obtain ⟨s, us, rfl, rest⟩ := h
      exact ⟨t, type, s, us, found, rfl, rest⟩
    · exact h.elim
  | routineName owner kind place type =>
    simp only [step] at h
    split at h
    · next word =>
      obtain ⟨left, ps, us, rfl, right, vs, rfl, b, ws, rfl, rest⟩ := h
      rw [BlockContext.Finishes, OpenRoutine.close, List.append_nil, List.reverse_reverse] at rest
      exact ⟨⟨⟨t, word⟩, left, ps, right, b⟩, ws, rfl, rest⟩
    · exact h.elim
  | openParameters routine =>
    simp only [step] at h
    split at h
    · next kind =>
      obtain ⟨ps, us, rfl, rest⟩ := h
      exact ⟨⟨t, kind⟩, ps, us, rfl, rest⟩
    · exact h.elim
  | firstParameter routine =>
    simp only [step] at h
    split at h
    · next kind => exact ⟨.none, _, rfl, ⟨t, kind⟩, ts, rfl, h⟩
    · obtain ⟨p, more, us, same, rest⟩ := beginParameter_finishes h
      exact ⟨.some p more, us, same, rest⟩
  | parameterName routine type =>
    simp only [step] at h
    split at h
    · next kind =>
      obtain ⟨more, us, rfl, right, vs, rfl, rest⟩ := h
      refine ⟨⟨t, kind⟩, more, _, rfl, right, vs, rfl, ?_⟩
      rw [List.reverse_cons, List.append_assoc]
      exact rest
    · exact h.elim
  | moreParameters routine =>
    simp only [step] at h
    split at h
    · next kind =>
      obtain ⟨p, more, us, rfl, rest⟩ := h
      exact ⟨(⟨t, kind⟩, p) :: more, us, rfl, rest⟩
    · next kind => exact ⟨[], _, rfl, ⟨t, kind⟩, ts, rfl, h⟩
    · exact h.elim

/-- What is read to the end of a class finishes it. -/
theorem finishes_of_after {s : State .class_}
    (numeric : ∀ t ∈ ts, t.kind = .integerConstant → IsDigits t.value)
    (h : s.after ts = some (.classDone tree)) : s.Finishes tree ts := by
  induction ts generalizing s with
  | nil =>
    cases h
    exact ⟨rfl, rfl⟩
  | cons t ts ih =>
    obtain ⟨first, rest⟩ := List.forall_mem_cons.1 numeric
    rcases s.step_cases t with ⟨s', step⟩ | ⟨e, taken, step, -⟩
    · rw [after_cons step] at h
      refine step_finishes first ?_
      rw [step]
      exact ih rest h
    · rw [after_refused step] at h
      cases h

end State

/-- **The tokens that are read as a class are derived by the grammar.** -/
theorem exists_derivation (numeric : ∀ t ∈ ts, t.kind = .integerConstant → IsDigits t.value)
    (h : State.classWord.after ts = some (.classDone tree)) :
    ∃ c : Grammar.Class, c.tokens = ts ∧ c.tree = tree := by
  obtain ⟨c, rfl, rfl⟩ := State.finishes_of_after numeric h
  exact ⟨c, rfl, rfl⟩

end JackCompiler
