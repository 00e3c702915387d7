import JackCompiler.Proofs.Rendering.Form
/-!
# The strings in the form of a tree

Read from left to right, the texts between quotes in the S-expression of a class are the strings
among its tokens.

        f("a b", x, "")        (call f "a b" x "")
-/

namespace JackCompiler.Grammar

open Sexp (allQuotes)

/-! ### Tokens -/

/-- The values of the strings among the tokens. -/
def stringsOf (ts : List Token) : List String :=
  (ts.filter (·.kind = .stringConstant)).map (·.value)

@[simp] theorem stringsOf_text (s : Text) (ts : List Token) :
    stringsOf (s.token :: ts) = s.token.value :: stringsOf ts := by
  rw [stringsOf, List.filter_cons_of_pos (by simpa using s.kind_eq)]
  rfl

@[simp] theorem stringsOf_other {kind : TokenKind} (w : Terminal kind)
    (h : kind ≠ .stringConstant) (ts : List Token) :
    stringsOf (w.token :: ts) = stringsOf ts := by
  rw [stringsOf, List.filter_cons_of_neg (by simpa [w.kind_eq] using h)]
  rfl

/-! ### Expressions -/

mutual

theorem Expression.stringsOf_onto : ∀ (e : Expression) (ts : List Token),
    stringsOf (e.onto ts) = e.tree.sexp.quotes ++ stringsOf ts
  | .mk first rest, ts => by
    rw [Expression.onto, Expression.tree, ← rest.stringsOf_onto, first.stringsOf_onto]

/-- Operators and operands add their strings to those of the left side. -/
theorem Operations.stringsOf_onto : ∀ (ops : Operations) (left : Expr) (ts : List Token),
    left.sexp.quotes ++ stringsOf (ops.onto ts) = (ops.apply left).sexp.quotes ++ stringsOf ts
  | .nil, _, _ => rfl
  | .cons op sign operand rest, left, ts => by
    rw [Operations.apply, ← rest.stringsOf_onto, Operations.onto, stringsOf_other _ (by simp),
      operand.stringsOf_onto]
    simp [Expr.sexp, Sexp.quotes, allQuotes]

theorem Unary.stringsOf_onto : ∀ (u : Unary) (ts : List Token),
    stringsOf (u.onto ts) = u.tree.sexp.quotes ++ stringsOf ts
  | .sign op sign operand, ts => by
    simp [Unary.onto, Unary.tree, Expr.sexp, Sexp.quotes, allQuotes, operand.stringsOf_onto]
  | .plain operand, ts => by
    simp [Unary.onto, Unary.tree, operand.stringsOf_onto]

theorem Postfix.stringsOf_onto : ∀ (p : Postfix) (ts : List Token),
    stringsOf (p.onto ts) = p.tree.sexp.quotes ++ stringsOf ts
  | .plain primary, ts => by
    simp [Postfix.onto, Postfix.tree, primary.stringsOf_onto]
  | .index primary left subscript right, ts => by
    simp [Postfix.onto, Postfix.tree, Expr.sexp, Sexp.quotes, allQuotes, primary.stringsOf_onto,
      subscript.stringsOf_onto]

theorem Primary.stringsOf_onto : ∀ (p : Primary) (ts : List Token),
    stringsOf (p.onto ts) = p.tree.sexp.quotes ++ stringsOf ts
  | .number n, ts | .text n, ts | .true_ n, ts | .false_ n, ts | .null n, ts | .this n, ts
  | .name n, ts => by
    simp [Primary.onto, Primary.tree, Expr.sexp, Sexp.quotes]
  | .group left inner right, ts => by
    simp [Primary.onto, Primary.tree, inner.stringsOf_onto]
  | .memberCall receiver dot name left arguments right, ts
  | .thisCall receiver dot name left arguments right, ts => by
    simp [Primary.onto, Primary.tree, Expr.sexp, Sexp.quotes, allQuotes, arguments.stringsOf_onto]
  | .call name left arguments right, ts => by
    simp [Primary.onto, Primary.tree, Expr.sexp, Sexp.quotes, allQuotes, arguments.stringsOf_onto]

theorem Arguments.stringsOf_onto : ∀ (a : Arguments) (ts : List Token),
    stringsOf (a.onto ts) = allQuotes (sexps a.trees) ++ stringsOf ts
  | .none, _ => rfl
  | .some first more, ts => by
    simp [Arguments.onto, Arguments.trees, sexps, allQuotes, first.stringsOf_onto,
      more.stringsOf_onto]

theorem MoreArguments.stringsOf_onto : ∀ (a : MoreArguments) (ts : List Token),
    stringsOf (a.onto ts) = allQuotes (sexps a.trees) ++ stringsOf ts
  | .nil, _ => rfl
  | .cons comma argument more, ts => by
    simp [MoreArguments.onto, MoreArguments.trees, sexps, allQuotes, argument.stringsOf_onto,
      more.stringsOf_onto]

end

/-! ### Statements -/

theorem VariableType.stringsOf_cons (t : VariableType) (ts : List Token) :
    stringsOf (t.token :: ts) = stringsOf ts := by
  cases t <;> simp [token]

theorem ResultType.stringsOf_cons (t : ResultType) (ts : List Token) :
    stringsOf (t.token :: ts) = stringsOf ts := by
  cases t with
  | value t => exact t.stringsOf_cons ts
  | void w => simp [token]

theorem allQuotes_declaration (d : Declaration) : allQuotes d.sexps = [] := by
  rw [Declaration.sexps, allQuotes, Sexp.allQuotes_map_word, Sexp.quotes, List.nil_append]

theorem MoreNames.stringsOf_onto (more : MoreNames) (ts : List Token) :
    stringsOf (more.onto ts) = stringsOf ts := by
  induction more with
  | nil => rfl
  | cons name more ih => simp [MoreNames.onto, ih]

/-- Variables have no strings. -/
theorem Variables.stringsOf_onto (v : Variables) (ts : List Token) :
    stringsOf (v.onto ts) = stringsOf ts := by
  simp [onto, v.type.stringsOf_cons, v.more.stringsOf_onto]

mutual

theorem Statement.stringsOf_onto : ∀ (s : Statement) (ts : List Token),
    stringsOf (s.onto ts) = s.tree.sexp.quotes ++ stringsOf ts
  | .declare word declared, ts => by
    simp [Statement.onto, Statement.tree, Stmt.sexp, Sexp.quotes, allQuotes, allQuotes_declaration,
      declared.stringsOf_onto]
  | .assign word name equal value stop, ts => by
    simp [Statement.onto, Statement.tree, Stmt.sexp, Sexp.quotes, allQuotes, value.stringsOf_onto]
  | .assignElement word name left subscript right equal value stop, ts => by
    simp [Statement.onto, Statement.tree, Stmt.sexp, Sexp.quotes, allQuotes,
      subscript.stringsOf_onto, value.stringsOf_onto]
  | .perform word call stop, ts => by
    simp [Statement.onto, Statement.tree, Stmt.sexp, Sexp.quotes, allQuotes, call.stringsOf_onto]
  | .ifThen word left condition right body, ts => by
    simp [Statement.onto, Statement.tree, Stmt.sexp, Sexp.quotes, allQuotes,
      condition.stringsOf_onto, body.stringsOf_onto]
  | .ifElse word left condition right body otherwise alternative, ts => by
    simp [Statement.onto, Statement.tree, Stmt.sexp, Sexp.quotes, allQuotes,
      condition.stringsOf_onto, body.stringsOf_onto, alternative.stringsOf_onto]
  | .repeatWhile word left condition right body, ts => by
    simp [Statement.onto, Statement.tree, Stmt.sexp, Sexp.quotes, allQuotes,
      condition.stringsOf_onto, body.stringsOf_onto]
  | .giveBack word stop, ts => by
    simp [Statement.onto, Statement.tree, Stmt.sexp, Sexp.quotes, allQuotes]
  | .giveBackValue word value stop, ts => by
    simp [Statement.onto, Statement.tree, Stmt.sexp, Sexp.quotes, allQuotes, value.stringsOf_onto]

theorem Block.stringsOf_onto : ∀ (b : Block) (ts : List Token),
    stringsOf (b.onto ts) = allQuotes (blockSexps b.trees) ++ stringsOf ts
  | .mk left statements right, ts => by
    simp [Block.onto, Block.trees, statements.stringsOf_onto]

theorem Statements.stringsOf_onto : ∀ (ss : Statements) (ts : List Token),
    stringsOf (ss.onto ts) = allQuotes (blockSexps ss.trees) ++ stringsOf ts
  | .nil, _ => rfl
  | .cons first rest, ts => by
    simp [Statements.onto, Statements.trees, blockSexps, allQuotes, first.stringsOf_onto,
      rest.stringsOf_onto]

end

/-! ### Classes -/

theorem ParameterPart.stringsOf_onto (p : ParameterPart) (ts : List Token) :
    stringsOf (p.onto ts) = stringsOf ts := by
  simp [onto, p.type.stringsOf_cons]

theorem MoreParameters.stringsOf_onto (more : MoreParameters) (ts : List Token) :
    stringsOf (more.onto ts) = stringsOf ts := by
  induction more with
  | nil => rfl
  | cons p more ih => simp [MoreParameters.onto, ih, ParameterPart.stringsOf_onto]

/-- Parameters have no strings. -/
theorem Parameters.stringsOf_onto (ps : Parameters) (ts : List Token) :
    stringsOf (ps.onto ts) = stringsOf ts := by
  cases ps with
  | none => rfl
  | some first more => rw [onto, first.stringsOf_onto, more.stringsOf_onto]

theorem allQuotes_parameters (ps : List Parameter) : allQuotes (ps.map Parameter.sexp) = [] := by
  induction ps with
  | nil => rfl
  | cons p ps ih => simp [allQuotes, ih, Parameter.sexp, Sexp.quotes]

theorem Signature.stringsOf_onto (s : Signature) (kind : RoutineKind) (type : JackType)
    (place : Position) (ts : List Token) :
    stringsOf (s.onto ts) = (s.tree kind type place).sexp.quotes ++ stringsOf ts := by
  simp [onto, tree, Routine.sexp, Sexp.quotes, allQuotes, allQuotes_parameters,
    s.parameters.stringsOf_onto, s.body.stringsOf_onto]

theorem MemberPart.stringsOf_onto (m : MemberPart) (ts : List Token) :
    stringsOf (m.onto ts) = m.tree.sexp.quotes ++ stringsOf ts := by
  cases m with
  | shared word declared | perObject word declared =>
    simp [onto, tree, Member.sexp, Sexp.quotes, allQuotes, allQuotes_declaration,
      declared.stringsOf_onto]
  | function word type signature | method word type signature =>
    simp only [onto, tree, Member.sexp, ← signature.stringsOf_onto]
    rw [stringsOf_other _ (by simp), type.stringsOf_cons]
  | constructor word type signature =>
    simp only [onto, tree, Member.sexp, ← signature.stringsOf_onto]
    rw [stringsOf_other _ (by simp), type.stringsOf_cons]

theorem membersOnto_strings (ms : List MemberPart) (ts : List Token) :
    stringsOf (membersOnto ms ts) =
      allQuotes ((ms.map MemberPart.tree).map Member.sexp) ++ stringsOf ts := by
  induction ms with
  | nil => rfl
  | cons m ms ih => simp [membersOnto, allQuotes, m.stringsOf_onto, ih]

/-- **The texts between quotes in the form of a class are the strings among its tokens**, in order.
-/
theorem Class.stringsOf_tokens (c : Class) : stringsOf c.tokens = c.tree.sexp.quotes := by
  have none : stringsOf [] = [] := rfl
  simp [tokens, tree, ClassTree.sexp, Sexp.quotes, allQuotes, membersOnto_strings, none]

end JackCompiler.Grammar
