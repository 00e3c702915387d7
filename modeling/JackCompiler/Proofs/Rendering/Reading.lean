import JackCompiler.Proofs.Lexeme.Values
import JackCompiler.Proofs.Rendering.Form
import JackCompiler.Proofs.Syntax.Relocation
import Mathlib.Data.List.TakeWhile
/-!
# Reading the form of a tree

A tree is read from its S-expression, with one place for all. Where a word heads different nodes the
rest of the list tells them apart: a minus with one operand or two, a call of a word with a dot in
it or without, an assignment to a word or to a list. What a word alone denotes is told by its
spelling, as no identifier is a numeral or a reserved word.

        (- a)    (- a b)        (call f a)    (call b.f a)        (let a 1)    (let (index a i) 1)
-/

namespace JackCompiler

/-! ### Words -/

/-- The operator between operands that is spelled so. -/
def BinaryOp.ofText (w : String) : BinaryOp :=
  if w = "+" then .add else if w = "-" then .subtract else if w = "*" then .multiply
  else if w = "/" then .divide else if w = "&" then .and else if w = "|" then .or
  else if w = "<" then .less else if w = ">" then .greater else .equal

@[simp] theorem BinaryOp.ofText_text (op : BinaryOp) : ofText op.text = op := by
  cases op <;> rfl

/-- The operator in front of an operand that is spelled so. -/
def UnaryOp.ofText (w : String) : UnaryOp := if w = "-" then .negate else .not

@[simp] theorem UnaryOp.ofText_text (op : UnaryOp) : ofText op.text = op := by
  cases op <;> rfl

/-- The kind of routine that is spelled so. -/
def RoutineKind.ofText (w : String) : RoutineKind :=
  if w = "function" then .function else if w = "method" then .method else .constructor

@[simp] theorem RoutineKind.ofText_text (kind : RoutineKind) : ofText kind.text = kind := by
  cases kind <;> rfl

/-- The type that is named so. -/
def JackType.ofName (w : String) : JackType :=
  if w = "int" then .int else if w = "char" then .char else if w = "boolean" then .boolean
  else if w = "void" then .void else .named w

theorem JackType.ofName_name {type : JackType} (h : ∀ n ∈ type.identifiers, IsIdentifier n) :
    ofName type.name = type := by
  cases type with
  | named name =>
    have free := (h name (.head _)).free
    have int : name ≠ "int" := free .int
    have char : name ≠ "char" := free .char
    have boolean : name ≠ "boolean" := free .boolean
    have void : name ≠ "void" := free .void
    rw [JackType.name, ofName, if_neg int, if_neg char, if_neg boolean, if_neg void]
  | int | char | boolean | void => rfl

variable (p : Position)

/-- The expression that a word denotes. -/
def Expr.ofWord (w : String) : Expr :=
  match Decimal.word? w.toList with
  | some value => .constant value (some p)
  | none =>
    if w = "true" then .boolean true else if w = "false" then .boolean false
    else if w = "null" then .null else if w = "this" then .this (some p)
    else .reference w (some p)

theorem Expr.ofWord_number (value : UInt16) :
    ofWord p (toString value) = .constant value (some p) := by
  rw [ofWord, Decimal.word?_eq_some.2 (isNumeral_toString value)]

theorem Expr.ofWord_identifier {name : String} (h : IsIdentifier name) :
    ofWord p name = .reference name (some p) := by
  have none : Decimal.word? name.toList = none := by
    rw [Option.eq_none_iff_forall_ne_some]
    exact fun n some => h.not_isNumeral n (Decimal.word?_eq_some.1 some)
  have true_ : name ≠ "true" := h.free .true_
  have false_ : name ≠ "false" := h.free .false_
  have null : name ≠ "null" := h.free .null
  have this : name ≠ "this" := h.free .this
  rw [ofWord, none]
  dsimp only
  rw [if_neg true_, if_neg false_, if_neg null, if_neg this]

/-- The call of what a word names: behind a dot, a routine with the receiver in front. -/
def Expr.ofCall (w : String) (arguments : List Expr) : Expr :=
  match w.toList.dropWhile (· ≠ '.') with
  | [] => .call w arguments (some p)
  | _ :: name => .methodCall (ofWord p (String.ofList (w.toList.takeWhile (· ≠ '.'))))
      (String.ofList name) arguments (some p)

theorem IsIdentifier.undotted {s : String} (h : IsIdentifier s) : ∀ c ∈ s.toList, c ≠ '.' :=
  fun _ member => ne_of_mem_of_not_mem member (h.notMem (b := 46) (by decide) (by decide))

theorem Expr.ofCall_name {name : String} (h : IsIdentifier name) (arguments : List Expr) :
    ofCall p name arguments = .call name arguments (some p) := by
  have none : name.toList.dropWhile (· ≠ '.') = [] := by
    rw [List.dropWhile_eq_nil_iff]
    simpa using h.undotted
  rw [ofCall, none]

theorem Expr.ofCall_dotted {receiver : String} (h : ∀ c ∈ receiver.toList, c ≠ '.')
    (name : String) (arguments : List Expr) :
    ofCall p (receiver ++ "." ++ name) arguments =
      .methodCall (ofWord p receiver) name arguments (some p) := by
  have chars : (receiver ++ "." ++ name).toList = receiver.toList ++ '.' :: name.toList := by simp
  have front : ∀ c ∈ receiver.toList, decide (c ≠ '.') = true := by simpa using h
  rw [ofCall, chars, List.dropWhile_append_of_pos front, List.takeWhile_append_of_pos front]
  simp

/-! ### Expressions -/

mutual

/-- The expression with this form. -/
def Sexp.expr : Sexp → Expr
  | .word w => .ofWord p w
  | .quoted text => .string text
  | .list (.word "call" :: .word routine :: arguments) => .ofCall p routine (exprs arguments)
  | .list [.word "index", target, subscript] => .index target.expr subscript.expr
  | .list [.word op, operand] => .unary (.ofText op) operand.expr
  | .list [.word op, left, right] => .binary (.ofText op) left.expr right.expr (some p)
  | _ => .null

/-- The expressions with these forms. -/
def exprs : List Sexp → List Expr
  | [] => []
  | x :: xs => x.expr :: exprs xs

end

theorem Sexp.expr_binary (op : BinaryOp) (left right : Sexp) :
    (list [word op.text, left, right]).expr p =
      .binary op (left.expr p) (right.expr p) (some p) := by
  cases op <;> rfl

theorem Sexp.expr_unary (op : UnaryOp) (operand : Sexp) :
    (list [word op.text, operand]).expr p = .unary op (operand.expr p) := by
  cases op <;> rfl

variable {p} {P : Position → Prop}

/-- The place that is recorded is replaced by the one for all. -/
theorem map_recorded {position : Option Position} (h : Recorded P position) :
    position.map (fun _ => p) = some p := by
  obtain ⟨q, rfl, -⟩ := h
  rfl

/-- No dot is in the word for a receiver. -/
theorem Expr.IsNamed.undotted {receiver : Expr} (h : receiver.IsNamed)
    (names : ∀ n ∈ receiver.identifiers, IsIdentifier n) :
    ∀ c ∈ receiver.receiverWord.toList, c ≠ '.' := by
  cases receiver with
  | this _ => simp [Expr.receiverWord]
  | reference name _ => exact (names name (.head _)).undotted
  | _ => cases h

mutual

/-- An expression is read from its form. -/
theorem Expr.Located.read : ∀ {e : Expr}, e.Located P → (∀ n ∈ e.identifiers, IsIdentifier n) →
    e.sexp.expr p = e.relocate fun _ => p
  | .constant value _, h, _ => by
    rw [Expr.Located] at h
    rw [Expr.sexp, Sexp.expr, Expr.ofWord_number, Expr.relocate, map_recorded h.1]
  | .boolean value, _, _ => by cases value <;> rfl
  | .string value, _, _ => rfl
  | .null, _, _ => rfl
  | .this _, h, _ => by
    rw [Expr.Located] at h
    rw [Expr.relocate, map_recorded h]
    rfl
  | .reference name _, h, names => by
    rw [Expr.Located] at h
    rw [Expr.sexp, Sexp.expr, Expr.ofWord_identifier p (names name (.head _)), Expr.relocate,
      map_recorded h]
  | .binary op left right _, h, names => by
    rw [Expr.Located] at h
    obtain ⟨hl, hr⟩ := List.forall_mem_append.1 names
    rw [Expr.sexp, Sexp.expr_binary, h.2.1.read hl, h.2.2.read hr, Expr.relocate, map_recorded h.1]
  | .unary op operand, h, names => by
    rw [Expr.Located] at h
    rw [Expr.sexp, Sexp.expr_unary, h.read names, Expr.relocate]
  | .call name arguments _, h, names => by
    rw [Expr.Located] at h
    obtain ⟨routine, others⟩ := List.forall_mem_cons.1 names
    rw [Expr.sexp, Sexp.expr, Expr.ofCall_name p routine, read_sexps h.2 others, Expr.relocate,
      map_recorded h.1]
  | .methodCall receiver name arguments _, h, names => by
    rw [Expr.Located] at h
    obtain ⟨place, named, located, arguments⟩ := h
    obtain ⟨front, behind⟩ := List.forall_mem_append.1 names
    have read : Expr.ofWord p receiver.receiverWord = receiver.relocate fun _ => p := by
      rw [← located.read front, named.sexp_eq, Sexp.expr]
    rw [Expr.sexp, Sexp.expr, Expr.ofCall_dotted p (named.undotted front), read,
      read_sexps arguments (List.forall_mem_cons.1 behind).2, Expr.relocate, map_recorded place]
  | .index target subscript, h, names => by
    rw [Expr.Located] at h
    obtain ⟨ht, hs⟩ := List.forall_mem_append.1 names
    rw [Expr.sexp, Sexp.expr, h.1.read ht, h.2.read hs, Expr.relocate]

theorem read_sexps : ∀ {es : List Expr}, allLocated P es →
    (∀ n ∈ allIdentifiers es, IsIdentifier n) → exprs p (sexps es) = relocateAll (fun _ => p) es
  | [], _, _ => rfl
  | e :: es, h, names => by
    rw [allLocated] at h
    obtain ⟨first, others⟩ := List.forall_mem_append.1 names
    rw [sexps, exprs, h.1.read first, read_sexps h.2 others, relocateAll]

end

/-! ### Statements -/

variable (p)

/-- The declaration with these forms of its type and names. -/
def Declaration.ofSexps : List Sexp → Declaration
  | .word type :: names => ⟨.ofName type, Sexp.allWords names, some p⟩
  | _ => ⟨.void, [], none⟩

mutual

/-- The statement with this form. -/
def Sexp.stmt : Sexp → Stmt
  | .list (.word "var" :: declared) => .declare (.ofSexps p declared)
  | .list [.word "let", .word name, value] => .assign name (value.expr p) (some p)
  | .list [.word "let", .list [_, .word name, subscript], value] =>
    .assignElement name (subscript.expr p) (value.expr p) (some p)
  | .list [.word "if", condition, .list (_ :: body)] => .ifThen (condition.expr p) (stmts body)
  | .list [.word "if", condition, .list (_ :: body), .list (_ :: alternative)] =>
    .ifElse (condition.expr p) (stmts body) (stmts alternative)
  | .list [.word "while", condition, .list (_ :: body)] =>
    .repeatWhile (condition.expr p) (stmts body)
  | .list [.word "do", call] => .perform (call.expr p) (some p)
  | .list [.word "return", value] => .giveBack (some (value.expr p)) (some p)
  | _ => .giveBack none (some p)

/-- The statements with these forms. -/
def stmts : List Sexp → List Stmt
  | [] => []
  | x :: xs => x.stmt :: stmts xs

end

/-- The parameter with this form. -/
def Sexp.parameter : Sexp → Parameter
  | .list [.word type, .word name] => ⟨.ofName type, name, some p⟩
  | _ => ⟨.void, "", none⟩

/-- The routine with this form. -/
def Sexp.routine : Sexp → Routine
  | .list [.word kind, .word type, .word name, .list parameters, .list (_ :: body)] =>
    ⟨.ofText kind, .ofName type, name, parameters.map (Sexp.parameter p), stmts p body, some p⟩
  | _ => ⟨.function, .void, "", [], [], none⟩

/-- The member with this form. -/
def Sexp.member : Sexp → Member
  | .list (.word "static" :: declared) => .shared (.ofSexps p declared)
  | .list (.word "field" :: declared) => .perObject (.ofSexps p declared)
  | x => .routine (x.routine p)

/-- The class with this form. -/
def Sexp.classTree : Sexp → ClassTree
  | .list (_ :: .word name :: members) => ⟨name, members.map (Sexp.member p), some p⟩
  | _ => ⟨"", [], none⟩

variable {p}

theorem Declaration.read {d : Declaration} (h : Recorded P d.position)
    (names : ∀ n ∈ d.identifiers, IsIdentifier n) :
    ofSexps p d.sexps = d.relocate fun _ => p := by
  have type := JackType.ofName_name (List.forall_mem_append.1 names).1
  rw [sexps, ofSexps, type, Sexp.allWords_map_word, relocate, map_recorded h]

mutual

/-- A statement is read from its form. -/
theorem Stmt.Located.read : ∀ {s : Stmt}, s.Located P → (∀ n ∈ s.identifiers, IsIdentifier n) →
    s.sexp.stmt p = s.relocate fun _ => p
  | .declare d, h, names => by
    rw [Stmt.Located] at h
    rw [Stmt.sexp, Sexp.stmt, Declaration.read h names, Stmt.relocate]
  | .assign name value _, h, names => by
    rw [Stmt.Located] at h
    obtain ⟨-, hv⟩ := List.forall_mem_cons.1 names
    rw [Stmt.sexp, Sexp.stmt, h.2.read hv, Stmt.relocate, map_recorded h.1]
  | .assignElement name subscript value _, h, names => by
    rw [Stmt.Located] at h
    obtain ⟨front, hv⟩ := List.forall_mem_append.1 names
    obtain ⟨-, hs⟩ := List.forall_mem_cons.1 front
    rw [Stmt.sexp, Sexp.stmt, h.2.1.read hs, h.2.2.read hv, Stmt.relocate, map_recorded h.1]
  | .ifThen condition body, h, names => by
    rw [Stmt.Located] at h
    obtain ⟨hc, hb⟩ := List.forall_mem_append.1 names
    rw [Stmt.sexp, Sexp.stmt, h.1.read hc, read_blockSexps h.2 hb, Stmt.relocate]
  | .ifElse condition body alternative, h, names => by
    rw [Stmt.Located] at h
    obtain ⟨front, ha⟩ := List.forall_mem_append.1 names
    obtain ⟨hc, hb⟩ := List.forall_mem_append.1 front
    rw [Stmt.sexp, Sexp.stmt, h.1.read hc, read_blockSexps h.2.1 hb, read_blockSexps h.2.2 ha,
      Stmt.relocate]
  | .repeatWhile condition body, h, names => by
    rw [Stmt.Located] at h
    obtain ⟨hc, hb⟩ := List.forall_mem_append.1 names
    rw [Stmt.sexp, Sexp.stmt, h.1.read hc, read_blockSexps h.2 hb, Stmt.relocate]
  | .perform call _, h, names => by
    rw [Stmt.Located] at h
    rw [Stmt.sexp, Sexp.stmt, h.2.read names, Stmt.relocate, map_recorded h.1]
  | .giveBack none _, h, _ => by
    rw [Stmt.Located] at h
    rw [Stmt.relocate, map_recorded h]
    rfl
  | .giveBack (some value) _, h, names => by
    rw [Stmt.Located] at h
    rw [Stmt.sexp, Sexp.stmt, h.2.read names, Stmt.relocate, map_recorded h.1, Option.map_some]

theorem read_blockSexps : ∀ {ss : List Stmt}, blockLocated P ss →
    (∀ n ∈ blockIdentifiers ss, IsIdentifier n) →
      stmts p (blockSexps ss) = relocateBlock (fun _ => p) ss
  | [], _, _ => rfl
  | s :: ss, h, names => by
    rw [blockLocated] at h
    obtain ⟨first, others⟩ := List.forall_mem_append.1 names
    rw [blockSexps, stmts, h.1.read first, read_blockSexps h.2 others, relocateBlock]

end

/-! ### Classes -/

theorem Parameter.read {q : Parameter} (h : Recorded P q.position)
    (names : ∀ n ∈ q.identifiers, IsIdentifier n) :
    q.sexp.parameter p = q.relocate fun _ => p := by
  have type := JackType.ofName_name (List.forall_mem_append.1 names).1
  rw [sexp, Sexp.parameter, type, relocate, map_recorded h]

theorem Routine.Located.read {r : Routine} (h : r.Located P)
    (names : ∀ n ∈ r.identifiers, IsIdentifier n) : r.sexp.routine p = r.relocate fun _ => p := by
  obtain ⟨front, body⟩ := List.forall_mem_append.1 names
  obtain ⟨type, behind⟩ := List.forall_mem_append.1 front
  obtain ⟨-, parameters⟩ := List.forall_mem_cons.1 behind
  have read : (r.parameters.map Parameter.sexp).map (Sexp.parameter p) =
      r.parameters.map (Parameter.relocate fun _ => p) := by
    rw [List.map_map]
    refine List.map_congr_left fun q member => Parameter.read (h.parameters q member) ?_
    exact fun n inside => parameters n (List.mem_flatMap.2 ⟨q, member, inside⟩)
  rw [Routine.sexp, Sexp.routine, RoutineKind.ofText_text, JackType.ofName_name type, read,
    read_blockSexps h.body body, relocateBlock_eq, Routine.relocate, map_recorded h.place]

/-- No routine is headed by the word for variables. -/
theorem Routine.member_sexp (r : Routine) : r.sexp.member p = .routine (r.sexp.routine p) := by
  rw [Routine.sexp]
  cases r.kind <;> rfl

theorem Member.Located.read {m : Member} (h : m.Located P)
    (names : ∀ n ∈ m.identifiers, IsIdentifier n) : m.sexp.member p = m.relocate fun _ => p := by
  cases m with
  | shared d | perObject d =>
    rw [Member.sexp, Sexp.member, Declaration.read h names, Member.relocate]
  | routine r =>
    have located : r.Located P := h
    rw [Member.sexp, Routine.member_sexp, located.read names, Member.relocate]

/-- **A class is read from its form.** -/
theorem ClassTree.Located.read {c : ClassTree} (h : c.Located P)
    (names : ∀ n ∈ c.identifiers, IsIdentifier n) : c.sexp.classTree p = c.relocate fun _ => p := by
  obtain ⟨-, others⟩ := List.forall_mem_cons.1 names
  have read : (c.members.map Member.sexp).map (Sexp.member p) =
      c.members.map (Member.relocate fun _ => p) := by
    rw [List.map_map]
    refine List.map_congr_left fun m member => Member.Located.read (h.members m member) ?_
    exact fun n inside => others n (List.mem_flatMap.2 ⟨m, member, inside⟩)
  rw [ClassTree.sexp, Sexp.classTree, read, ClassTree.relocate, map_recorded h.place]

end JackCompiler
