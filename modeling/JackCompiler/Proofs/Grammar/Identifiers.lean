import JackCompiler.Proofs.Grammar.Derivation
/-!
# The names in a tree

A tree names what the text names, neither more nor less: read from left to right, the names in the
tree of a class are the identifiers among its tokens. So whatever holds of the identifiers that a
text can contain holds of every name in its tree.

        class A { field B b; … c.d(e) … }      A  B  b  …  c  d  e
-/

namespace JackCompiler

/-! ### Trees -/

mutual

/-- The names in an expression, in the order of the text. -/
def Expr.identifiers : Expr → List String
  | .constant .. | .boolean _ | .string _ | .null | .this _ => []
  | .reference name _ => [name]
  | .binary _ left right _ => left.identifiers ++ right.identifiers
  | .unary _ operand => operand.identifiers
  | .call name arguments _ => name :: allIdentifiers arguments
  | .methodCall receiver name arguments _ =>
    receiver.identifiers ++ name :: allIdentifiers arguments
  | .index target subscript => target.identifiers ++ subscript.identifiers

/-- The names in expressions, in the order of the text. -/
def allIdentifiers : List Expr → List String
  | [] => []
  | e :: es => e.identifiers ++ allIdentifiers es

end

/-- The name that a type is written with, unless it is a reserved word. -/
def JackType.identifiers : JackType → List String
  | .named name => [name]
  | .int | .char | .boolean | .void => []

/-- The names in a declaration, in the order of the text. -/
def Declaration.identifiers (d : Declaration) : List String := d.type.identifiers ++ d.names

mutual

/-- The names in a statement, in the order of the text. -/
def Stmt.identifiers : Stmt → List String
  | .declare d => d.identifiers
  | .assign name value _ => name :: value.identifiers
  | .assignElement name subscript value _ =>
    name :: subscript.identifiers ++ value.identifiers
  | .ifThen condition body => condition.identifiers ++ blockIdentifiers body
  | .ifElse condition body alternative =>
    condition.identifiers ++ blockIdentifiers body ++ blockIdentifiers alternative
  | .repeatWhile condition body => condition.identifiers ++ blockIdentifiers body
  | .perform call _ => call.identifiers
  | .giveBack none _ => []
  | .giveBack (some value) _ => value.identifiers

/-- The names in a block, in the order of the text. -/
def blockIdentifiers : List Stmt → List String
  | [] => []
  | s :: ss => s.identifiers ++ blockIdentifiers ss

end

/-- The names in a parameter, in the order of the text. -/
def Parameter.identifiers (p : Parameter) : List String := p.type.identifiers ++ [p.name]

/-- The names in a routine, in the order of the text. -/
def Routine.identifiers (r : Routine) : List String :=
  r.returnType.identifiers ++ r.name :: r.parameters.flatMap (·.identifiers) ++
    blockIdentifiers r.body

/-- The names in a member, in the order of the text. -/
def Member.identifiers : Member → List String
  | .shared d | .perObject d => d.identifiers
  | .routine r => r.identifiers

/-- The names in a class, in the order of the text. -/
def ClassTree.identifiers (c : ClassTree) : List String :=
  c.name :: c.members.flatMap (·.identifiers)

namespace Grammar

/-! ### Tokens -/

/-- The texts of the identifiers among the tokens. -/
def identifiersOf (ts : List Token) : List String :=
  (ts.filter (·.kind = .identifier)).map (·.value)

@[simp] theorem identifiersOf_name (n : Name) (ts : List Token) :
    identifiersOf (n.token :: ts) = n.text :: identifiersOf ts := by
  rw [identifiersOf, List.filter_cons_of_pos (by simpa using n.kind_eq)]
  rfl

@[simp] theorem identifiersOf_other {kind : TokenKind} (w : Terminal kind)
    (h : kind ≠ .identifier) (ts : List Token) :
    identifiersOf (w.token :: ts) = identifiersOf ts := by
  rw [identifiersOf, List.filter_cons_of_neg (by simpa [w.kind_eq] using h)]
  rfl

/-! ### Expressions -/

mutual

theorem Expression.identifiersOf_onto : ∀ (e : Expression) (ts : List Token),
    identifiersOf (e.onto ts) = e.tree.identifiers ++ identifiersOf ts
  | .mk first rest, ts => by
    rw [Expression.onto, Expression.tree, ← rest.identifiersOf_onto, first.identifiersOf_onto]

/-- Operators and operands add their names to those of the left side. -/
theorem Operations.identifiersOf_onto : ∀ (ops : Operations) (left : Expr) (ts : List Token),
    left.identifiers ++ identifiersOf (ops.onto ts) =
      (ops.apply left).identifiers ++ identifiersOf ts
  | .nil, _, _ => rfl
  | .cons op sign operand rest, left, ts => by
    rw [Operations.apply, ← rest.identifiersOf_onto, Operations.onto, Expr.identifiers,
      identifiersOf_other _ (by simp), operand.identifiersOf_onto, List.append_assoc]

theorem Unary.identifiersOf_onto : ∀ (u : Unary) (ts : List Token),
    identifiersOf (u.onto ts) = u.tree.identifiers ++ identifiersOf ts
  | .sign op sign operand, ts => by
    simp [Unary.onto, Unary.tree, Expr.identifiers, operand.identifiersOf_onto]
  | .plain operand, ts => by
    simp [Unary.onto, Unary.tree, operand.identifiersOf_onto]

theorem Postfix.identifiersOf_onto : ∀ (p : Postfix) (ts : List Token),
    identifiersOf (p.onto ts) = p.tree.identifiers ++ identifiersOf ts
  | .plain primary, ts => by
    simp [Postfix.onto, Postfix.tree, primary.identifiersOf_onto]
  | .index primary left subscript right, ts => by
    simp [Postfix.onto, Postfix.tree, Expr.identifiers, primary.identifiersOf_onto,
      subscript.identifiersOf_onto]

theorem Primary.identifiersOf_onto : ∀ (p : Primary) (ts : List Token),
    identifiersOf (p.onto ts) = p.tree.identifiers ++ identifiersOf ts
  | .number n, ts | .text n, ts | .true_ n, ts | .false_ n, ts | .null n, ts | .this n, ts => by
    simp [Primary.onto, Primary.tree, Expr.identifiers]
  | .name name, ts => by
    simp [Primary.onto, Primary.tree, Expr.identifiers]
  | .group left inner right, ts => by
    simp [Primary.onto, Primary.tree, inner.identifiersOf_onto]
  | .memberCall receiver dot name left arguments right, ts
  | .thisCall receiver dot name left arguments right, ts => by
    simp [Primary.onto, Primary.tree, Expr.identifiers, arguments.identifiersOf_onto]
  | .call name left arguments right, ts => by
    simp [Primary.onto, Primary.tree, Expr.identifiers, arguments.identifiersOf_onto]

theorem Arguments.identifiersOf_onto : ∀ (a : Arguments) (ts : List Token),
    identifiersOf (a.onto ts) = allIdentifiers a.trees ++ identifiersOf ts
  | .none, _ => rfl
  | .some first more, ts => by
    simp [Arguments.onto, Arguments.trees, allIdentifiers, first.identifiersOf_onto,
      more.identifiersOf_onto]

theorem MoreArguments.identifiersOf_onto : ∀ (a : MoreArguments) (ts : List Token),
    identifiersOf (a.onto ts) = allIdentifiers a.trees ++ identifiersOf ts
  | .nil, _ => rfl
  | .cons comma argument more, ts => by
    simp [MoreArguments.onto, MoreArguments.trees, allIdentifiers, argument.identifiersOf_onto,
      more.identifiersOf_onto]

end

/-! ### Statements -/

theorem VariableType.identifiersOf_cons (t : VariableType) (ts : List Token) :
    identifiersOf (t.token :: ts) = t.tree.identifiers ++ identifiersOf ts := by
  cases t <;> simp [token, tree, JackType.identifiers]

theorem ResultType.identifiersOf_cons (t : ResultType) (ts : List Token) :
    identifiersOf (t.token :: ts) = t.tree.identifiers ++ identifiersOf ts := by
  cases t with
  | value t => exact t.identifiersOf_cons ts
  | void w => simp [token, tree, JackType.identifiers]

theorem MoreNames.identifiersOf_onto (more : MoreNames) (ts : List Token) :
    identifiersOf (more.onto ts) = more.map (·.2.text) ++ identifiersOf ts := by
  induction more with
  | nil => rfl
  | cons name more ih => simp [MoreNames.onto, ih]

theorem Variables.identifiersOf_onto (v : Variables) (place : Position) (ts : List Token) :
    identifiersOf (v.onto ts) = (v.tree place).identifiers ++ identifiersOf ts := by
  simp [onto, tree, Declaration.identifiers, v.type.identifiersOf_cons, v.more.identifiersOf_onto]

mutual

theorem Statement.identifiersOf_onto : ∀ (s : Statement) (ts : List Token),
    identifiersOf (s.onto ts) = s.tree.identifiers ++ identifiersOf ts
  | .declare word declared, ts => by
    simp [Statement.onto, Statement.tree, Stmt.identifiers,
      declared.identifiersOf_onto word.token.position]
  | .assign word name equal value stop, ts => by
    simp [Statement.onto, Statement.tree, Stmt.identifiers, value.identifiersOf_onto]
  | .assignElement word name left subscript right equal value stop, ts => by
    simp [Statement.onto, Statement.tree, Stmt.identifiers, subscript.identifiersOf_onto,
      value.identifiersOf_onto]
  | .perform word call stop, ts => by
    simp [Statement.onto, Statement.tree, Stmt.identifiers, call.identifiersOf_onto]
  | .ifThen word left condition right body, ts => by
    simp [Statement.onto, Statement.tree, Stmt.identifiers, condition.identifiersOf_onto,
      body.identifiersOf_onto]
  | .ifElse word left condition right body otherwise alternative, ts => by
    simp [Statement.onto, Statement.tree, Stmt.identifiers, condition.identifiersOf_onto,
      body.identifiersOf_onto, alternative.identifiersOf_onto]
  | .repeatWhile word left condition right body, ts => by
    simp [Statement.onto, Statement.tree, Stmt.identifiers, condition.identifiersOf_onto,
      body.identifiersOf_onto]
  | .giveBack word stop, ts => by
    simp [Statement.onto, Statement.tree, Stmt.identifiers]
  | .giveBackValue word value stop, ts => by
    simp [Statement.onto, Statement.tree, Stmt.identifiers, value.identifiersOf_onto]

theorem Block.identifiersOf_onto : ∀ (b : Block) (ts : List Token),
    identifiersOf (b.onto ts) = blockIdentifiers b.trees ++ identifiersOf ts
  | .mk left statements right, ts => by
    simp [Block.onto, Block.trees, statements.identifiersOf_onto]

theorem Statements.identifiersOf_onto : ∀ (ss : Statements) (ts : List Token),
    identifiersOf (ss.onto ts) = blockIdentifiers ss.trees ++ identifiersOf ts
  | .nil, _ => rfl
  | .cons first rest, ts => by
    simp [Statements.onto, Statements.trees, blockIdentifiers, first.identifiersOf_onto,
      rest.identifiersOf_onto]

end

/-! ### Classes -/

theorem ParameterPart.identifiersOf_onto (p : ParameterPart) (ts : List Token) :
    identifiersOf (p.onto ts) = p.tree.identifiers ++ identifiersOf ts := by
  simp [onto, tree, Parameter.identifiers, p.type.identifiersOf_cons]

theorem MoreParameters.identifiersOf_onto (more : MoreParameters) (ts : List Token) :
    identifiersOf (more.onto ts) =
      (more.map (·.2.tree)).flatMap (·.identifiers) ++ identifiersOf ts := by
  induction more with
  | nil => rfl
  | cons p more ih => simp [MoreParameters.onto, ih, ParameterPart.identifiersOf_onto]

theorem Parameters.identifiersOf_onto (ps : Parameters) (ts : List Token) :
    identifiersOf (ps.onto ts) = ps.trees.flatMap (·.identifiers) ++ identifiersOf ts := by
  cases ps with
  | none => rfl
  | some first more =>
    rw [onto, first.identifiersOf_onto, more.identifiersOf_onto]
    simp [trees]

/-- The tokens of a routine behind that of its type. -/
theorem Signature.identifiersOf_onto (s : Signature) (kind : RoutineKind) (type : JackType)
    (place : Position) (ts : List Token) :
    type.identifiers ++ identifiersOf (s.onto ts) =
      (s.tree kind type place).identifiers ++ identifiersOf ts := by
  simp [onto, tree, Routine.identifiers, s.parameters.identifiersOf_onto, s.body.identifiersOf_onto]

theorem MemberPart.identifiersOf_onto (m : MemberPart) (ts : List Token) :
    identifiersOf (m.onto ts) = m.tree.identifiers ++ identifiersOf ts := by
  cases m with
  | shared word declared | perObject word declared =>
    simp [onto, tree, Member.identifiers, declared.identifiersOf_onto word.token.position]
  | function word type signature | method word type signature =>
    simp only [onto, tree, Member.identifiers, ← signature.identifiersOf_onto]
    rw [identifiersOf_other _ (by simp), type.identifiersOf_cons]
  | constructor word type signature =>
    simp only [onto, tree, Member.identifiers, ← signature.identifiersOf_onto]
    rw [identifiersOf_other _ (by simp), type.identifiersOf_cons]

theorem membersOnto_identifiers (ms : List MemberPart) (ts : List Token) :
    identifiersOf (membersOnto ms ts) =
      (ms.map MemberPart.tree).flatMap (·.identifiers) ++ identifiersOf ts := by
  induction ms with
  | nil => rfl
  | cons m ms ih => simp [membersOnto, ih, m.identifiersOf_onto]

/-- **The names in the tree of a class are the identifiers among its tokens**, in order. -/
theorem Class.identifiersOf_tokens (c : Class) : identifiersOf c.tokens = c.tree.identifiers := by
  have none : identifiersOf [] = [] := rfl
  simp [tokens, tree, ClassTree.identifiers, membersOnto_identifiers, none]

end Grammar

end JackCompiler
