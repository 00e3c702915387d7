import JackCompiler.Proofs.Grammar.Identifiers
import JackCompiler.Proofs.Grammar.Located
import JackCompiler.Proofs.Rendering.SExpressions
/-!
# The form of a tree

The S-expression of a tree, and that it is what is written for the tree: a list headed by a word for
every node that has parts, and a word or a text between quotes for the others. The words are those
of the grammar, operators, numbers and the names in the tree, a receiver and a routine with a dot
between them being one word.

        let a[i] = b.size();        (let (index a i) (call b.size))
-/

namespace JackCompiler

open Sexp (writeSpaced)

/-! ### S-expressions of trees -/

/-- The word for a receiver of a call: a name or `this`. -/
def Expr.receiverWord : Expr → String
  | .this _ => "this"
  | .reference name _ => name
  | _ => ""

mutual

/-- The S-expression of an expression. -/
def Expr.sexp : Expr → Sexp
  | .constant value _ => .word (toString value)
  | .boolean value => .word (if value then "true" else "false")
  | .string value => .quoted value
  | .null => .word "null"
  | .this _ => .word "this"
  | .reference name _ => .word name
  | .binary op left right _ => .list [.word op.text, left.sexp, right.sexp]
  | .unary op operand => .list [.word op.text, operand.sexp]
  | .call name arguments _ => .list (.word "call" :: .word name :: sexps arguments)
  | .methodCall receiver name arguments _ =>
    .list (.word "call" :: .word (receiver.receiverWord ++ "." ++ name) :: sexps arguments)
  | .index target subscript => .list [.word "index", target.sexp, subscript.sexp]

/-- The S-expressions of expressions. -/
def sexps : List Expr → List Sexp
  | [] => []
  | e :: es => e.sexp :: sexps es

end

/-- The S-expressions of a declaration: the type and the names. -/
def Declaration.sexps (d : Declaration) : List Sexp := .word d.type.name :: d.names.map .word

mutual

/-- The S-expression of a statement. -/
def Stmt.sexp : Stmt → Sexp
  | .declare d => .list (.word "var" :: d.sexps)
  | .assign name value _ => .list [.word "let", .word name, value.sexp]
  | .assignElement name subscript value _ =>
    .list [.word "let", .list [.word "index", .word name, subscript.sexp], value.sexp]
  | .ifThen condition body =>
    .list [.word "if", condition.sexp, .list (.word "block" :: blockSexps body)]
  | .ifElse condition body alternative =>
    .list [.word "if", condition.sexp, .list (.word "block" :: blockSexps body),
      .list (.word "block" :: blockSexps alternative)]
  | .repeatWhile condition body =>
    .list [.word "while", condition.sexp, .list (.word "block" :: blockSexps body)]
  | .perform call _ => .list [.word "do", call.sexp]
  | .giveBack none _ => .list [.word "return"]
  | .giveBack (some value) _ => .list [.word "return", value.sexp]

/-- The S-expressions of the statements of a block. -/
def blockSexps : List Stmt → List Sexp
  | [] => []
  | s :: ss => s.sexp :: blockSexps ss

end

/-- The S-expression of a parameter. -/
def Parameter.sexp (p : Parameter) : Sexp := .list [.word p.type.name, .word p.name]

/-- The S-expression of a routine. -/
def Routine.sexp (r : Routine) : Sexp :=
  .list [.word r.kind.text, .word r.returnType.name, .word r.name,
    .list (r.parameters.map Parameter.sexp), .list (.word "block" :: blockSexps r.body)]

/-- The S-expression of a member. -/
def Member.sexp : Member → Sexp
  | .shared d => .list (.word "static" :: d.sexps)
  | .perObject d => .list (.word "field" :: d.sexps)
  | .routine r => r.sexp

/-- The S-expression of a class. -/
def ClassTree.sexp (c : ClassTree) : Sexp :=
  .list (.word "class" :: .word c.name :: c.members.map Member.sexp)

/-! ### What is written -/

variable {P : Position → Prop}

theorem writeNames_eq (names : List String) (rest : List Char) :
    writeNames names rest = writeSpaced (names.map .word) rest := by
  induction names with
  | nil => rfl
  | cons name names ih =>
    rw [List.map_cons, writeSpaced, Sexp.write, ← ih]
    rfl

theorem before_append (s t : String) (rest : List Char) :
    before (s ++ t) rest = before s (before t rest) := by
  simp [before]

/-- The form of a receiver is a word. -/
theorem Expr.IsNamed.sexp_eq {receiver : Expr} (h : receiver.IsNamed) :
    receiver.sexp = .word receiver.receiverWord := by
  cases receiver with
  | this _ => rw [Expr.sexp, Expr.receiverWord]
  | reference name _ => rw [Expr.sexp, Expr.receiverWord]
  | _ => cases h

mutual

/-- An expression is written as its S-expression. -/
theorem Expr.Located.write_eq : ∀ {e : Expr}, e.Located P → ∀ rest, e.write rest = e.sexp.write rest
  | .constant value _, _, _ | .boolean value, _, _ | .string value, _, _ | .null, _, _
  | .this _, _, _ | .reference name _, _, _ => by
    rw [Expr.write, Expr.sexp, Sexp.write]
  | .binary op left right _, h, rest => by
    rw [Expr.Located] at h
    simp only [Expr.write, Expr.sexp, Sexp.write, writeSpaced, h.2.1.write_eq, h.2.2.write_eq]
  | .unary op operand, h, rest => by
    rw [Expr.Located] at h
    simp only [Expr.write, Expr.sexp, Sexp.write, writeSpaced, h.write_eq]
  | .call name arguments _, h, rest => by
    rw [Expr.Located] at h
    simp only [Expr.write, Expr.sexp, Sexp.write, writeSpaced, writeExprs_eq h.2]
    rfl
  | .methodCall receiver name arguments _, h, rest => by
    rw [Expr.Located] at h
    obtain ⟨-, named, located, arguments⟩ := h
    simp only [Expr.write, Expr.sexp, Sexp.write, writeSpaced, writeExprs_eq arguments,
      located.write_eq, named.sexp_eq, before_append]
    rfl
  | .index target subscript, h, rest => by
    rw [Expr.Located] at h
    simp only [Expr.write, Expr.sexp, Sexp.write, writeSpaced, h.1.write_eq, h.2.write_eq]
    rfl

theorem writeExprs_eq : ∀ {es : List Expr}, allLocated P es →
    ∀ rest, writeExprs es rest = writeSpaced (sexps es) rest
  | [], _, _ => rfl
  | e :: es, h, rest => by
    rw [allLocated] at h
    rw [writeExprs, sexps, writeSpaced, h.1.write_eq, writeExprs_eq h.2]

end

/-- A declaration is written behind a word and a space. -/
theorem Declaration.write_eq (d : Declaration) (rest : List Char) :
    ' ' :: d.write rest = writeSpaced d.sexps rest := by
  rw [Declaration.write, writeNames_eq, Declaration.sexps, writeSpaced, Sexp.write]

mutual

/-- A statement is written as its S-expression. -/
theorem Stmt.Located.write_eq : ∀ {s : Stmt}, s.Located P → ∀ rest, s.write rest = s.sexp.write rest
  | .declare d, _, rest => by
    rw [Stmt.write, Stmt.sexp, Sexp.write, ← d.write_eq]
    rfl
  | .assign name value _, h, rest => by
    rw [Stmt.Located] at h
    simp only [Stmt.write, Stmt.sexp, Sexp.write, writeSpaced, h.2.write_eq]
    rfl
  | .assignElement name subscript value _, h, rest => by
    rw [Stmt.Located] at h
    simp only [Stmt.write, Stmt.sexp, Sexp.write, writeSpaced, h.2.1.write_eq, h.2.2.write_eq]
    rfl
  | .ifThen condition body, h, rest => by
    rw [Stmt.Located] at h
    simp only [Stmt.write, Stmt.sexp, Sexp.write, writeSpaced, h.1.write_eq, writeStmts_eq h.2]
    rfl
  | .ifElse condition body alternative, h, rest => by
    rw [Stmt.Located] at h
    simp only [Stmt.write, Stmt.sexp, Sexp.write, writeSpaced, h.1.write_eq, writeStmts_eq h.2.1,
      writeStmts_eq h.2.2]
    rfl
  | .repeatWhile condition body, h, rest => by
    rw [Stmt.Located] at h
    simp only [Stmt.write, Stmt.sexp, Sexp.write, writeSpaced, h.1.write_eq, writeStmts_eq h.2]
    rfl
  | .perform call _, h, rest => by
    rw [Stmt.Located] at h
    simp only [Stmt.write, Stmt.sexp, Sexp.write, writeSpaced, h.2.write_eq]
    rfl
  | .giveBack none _, _, rest => by
    rw [Stmt.write, Stmt.sexp]
    rfl
  | .giveBack (some value) _, h, rest => by
    rw [Stmt.Located] at h
    simp only [Stmt.write, Stmt.sexp, Sexp.write, writeSpaced, h.2.write_eq]
    rfl

theorem writeStmts_eq : ∀ {ss : List Stmt}, blockLocated P ss →
    ∀ rest, writeStmts ss rest = writeSpaced (blockSexps ss) rest
  | [], _, _ => rfl
  | s :: ss, h, rest => by
    rw [blockLocated] at h
    rw [writeStmts, blockSexps, writeSpaced, h.1.write_eq, writeStmts_eq h.2]

end

theorem Parameter.write_eq (p : Parameter) (rest : List Char) :
    p.write rest = p.sexp.write rest := by
  simp only [Parameter.write, Parameter.sexp, Sexp.write, writeSpaced]

/-- Parameters are written between the parentheses of a list. -/
theorem writeParameters_eq (ps : List Parameter) (rest : List Char) :
    '(' :: writeParameters ps (')' :: rest) = (Sexp.list (ps.map Parameter.sexp)).write rest := by
  have spaced (p : Parameter) (ps : List Parameter) (rest : List Char) :
      writeParameters (p :: ps) rest = p.sexp.write (writeSpaced (ps.map Parameter.sexp) rest) := by
    induction ps generalizing p with
    | nil => exact p.write_eq rest
    | cons q ps ih => rw [writeParameters, ih, p.write_eq, List.map_cons, writeSpaced]
  cases ps with
  | nil => rw [writeParameters, List.map_nil, Sexp.write]
  | cons p ps => rw [spaced, List.map_cons, Sexp.write]

theorem Routine.Located.write_eq {r : Routine} (h : r.Located P) (rest : List Char) :
    r.write rest = r.sexp.write rest := by
  simp only [Routine.sexp, Sexp.write, writeSpaced, ← writeParameters_eq, Routine.write,
    writeStmts_eq h.body]
  rfl

theorem Member.Located.write_eq {m : Member} (h : m.Located P) (rest : List Char) :
    m.write rest = m.sexp.write rest := by
  cases m with
  | shared d | perObject d =>
    rw [Member.write, Member.sexp, Sexp.write, ← d.write_eq]
    rfl
  | routine r => exact Routine.Located.write_eq h rest

/-- **A class is written as its S-expression.** -/
theorem ClassTree.Located.render_eq {c : ClassTree} (h : c.Located P) :
    c.render = String.ofList (c.sexp.write []) := by
  have members : ∀ ms : List Member, (∀ m ∈ ms, m.Located P) → ∀ rest,
      ms.foldr (fun m rest => ' ' :: m.write rest) rest =
        writeSpaced (ms.map Member.sexp) rest := by
    intro ms located rest
    induction ms with
    | nil => rfl
    | cons m ms ih =>
      obtain ⟨first, others⟩ := List.forall_mem_cons.1 located
      rw [List.foldr_cons, ih others, List.map_cons, writeSpaced, first.write_eq]
  simp only [ClassTree.render, ClassTree.sexp, Sexp.write, writeSpaced, members c.members h.members]
  rfl

end JackCompiler
