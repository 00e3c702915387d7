import JackCompiler.Syntax.Parse
/-!
# Places have no say

Every place in a token, in a tree or in an error can be replaced by another. Stepping from a state
looks at the kind and the value of a token and never at its place, so tokens with their places
replaced are read just like the tokens themselves: the trees and the errors are the same but for the
same replacement.

        tokens   ──run──▶   tree or error
          │ f                  │ f
          ▼                    ▼
        tokens'  ──run──▶   tree' or error'
-/

namespace JackCompiler

variable (f : Position → Position)

/-! ### Replacing places -/

/-- The token at another place. -/
def Token.relocate (t : Token) : Token := ⟨t.kind, t.value, ⟨f t.span.first, f t.span.last⟩⟩

/-- The error at another place. -/
def CompileError.relocate (e : CompileError) : CompileError :=
  { e with position := e.position.map f }

mutual

/-- The expression with other places. -/
@[simp] def Expr.relocate : Expr → Expr
  | .constant value position => .constant value (position.map f)
  | .boolean value => .boolean value
  | .string value => .string value
  | .null => .null
  | .this position => .this (position.map f)
  | .reference name position => .reference name (position.map f)
  | .binary op left right position =>
    .binary op left.relocate right.relocate (position.map f)
  | .unary op operand => .unary op operand.relocate
  | .call name arguments position => .call name (relocateAll arguments) (position.map f)
  | .methodCall receiver name arguments position =>
    .methodCall receiver.relocate name (relocateAll arguments) (position.map f)
  | .index target subscript => .index target.relocate subscript.relocate

/-- The expressions with other places. -/
def relocateAll : List Expr → List Expr
  | [] => []
  | e :: es => e.relocate :: relocateAll es

end

/-- The declaration with another place. -/
def Declaration.relocate (d : Declaration) : Declaration :=
  { d with position := d.position.map f }

mutual

/-- The statement with other places. -/
@[simp] def Stmt.relocate : Stmt → Stmt
  | .declare d => .declare (d.relocate f)
  | .assign name value position => .assign name (value.relocate f) (position.map f)
  | .assignElement name subscript value position =>
    .assignElement name (subscript.relocate f) (value.relocate f) (position.map f)
  | .ifThen condition body => .ifThen (condition.relocate f) (relocateBlock body)
  | .ifElse condition body alternative =>
    .ifElse (condition.relocate f) (relocateBlock body) (relocateBlock alternative)
  | .repeatWhile condition body => .repeatWhile (condition.relocate f) (relocateBlock body)
  | .perform call position => .perform (call.relocate f) (position.map f)
  | .giveBack value position => .giveBack (value.map (Expr.relocate f)) (position.map f)

/-- The statements with other places. -/
def relocateBlock : List Stmt → List Stmt
  | [] => []
  | s :: ss => s.relocate :: relocateBlock ss

end

@[simp] theorem relocateAll_eq (es : List Expr) : relocateAll f es = es.map (Expr.relocate f) := by
  induction es with
  | nil => rfl
  | cons e es ih => rw [relocateAll, ih, List.map_cons]

@[simp] theorem relocateBlock_eq (ss : List Stmt) :
    relocateBlock f ss = ss.map (Stmt.relocate f) := by
  induction ss with
  | nil => rfl
  | cons s ss ih => rw [relocateBlock, ih, List.map_cons]

/-- The parameter with another place. -/
def Parameter.relocate (p : Parameter) : Parameter := { p with position := p.position.map f }

/-- The routine with other places. -/
def Routine.relocate (r : Routine) : Routine :=
  ⟨r.kind, r.returnType, r.name, r.parameters.map (Parameter.relocate f),
    r.body.map (Stmt.relocate f), r.position.map f⟩

/-- The member with other places. -/
def Member.relocate : Member → Member
  | .shared d => .shared (d.relocate f)
  | .perObject d => .perObject (d.relocate f)
  | .routine r => .routine (r.relocate f)

/-- The class with other places. -/
def ClassTree.relocate (c : ClassTree) : ClassTree :=
  ⟨c.name, c.members.map (Member.relocate f), c.position.map f⟩

/-- The tree that is wanted, with other places. -/
def Goal.relocate : (g : Goal) → g.Tree → g.Tree
  | .expression => Expr.relocate f
  | .statement => Stmt.relocate f
  | .class_ => ClassTree.relocate f

/-! ### What is under way -/

/-- The class that is open, with other places. -/
def OpenClass.relocate (c : OpenClass) : OpenClass :=
  ⟨f c.place, c.name, c.members.map (Member.relocate f)⟩

/-- The routine that is open, with other places. -/
def OpenRoutine.relocate (r : OpenRoutine) : OpenRoutine :=
  ⟨r.owner.relocate f, r.kind, f r.place, r.returnType, r.name,
    r.parameters.map (Parameter.relocate f)⟩

mutual

/-- What surrounds a statement, with other places. -/
@[simp] def StmtContext.relocate {g : Goal} : StmtContext g → StmtContext g
  | .alone => .alone
  | .inside earlier block => .inside (earlier.map (Stmt.relocate f)) block.relocate

/-- What surrounds a block, with other places. -/
@[simp] def BlockContext.relocate {g : Goal} : BlockContext g → BlockContext g
  | .body routine => .body (routine.relocate f)
  | .consequent condition outer => .consequent (condition.relocate f) outer.relocate
  | .alternative condition body outer =>
    .alternative (condition.relocate f) (body.map (Stmt.relocate f)) outer.relocate
  | .loop condition outer => .loop (condition.relocate f) outer.relocate

end

/-- What surrounds a declaration, with other places. -/
def DeclarationContext.relocate {g : Goal} : DeclarationContext g → DeclarationContext g
  | .shared owner => .shared (owner.relocate f)
  | .perObject owner => .perObject (owner.relocate f)
  | .inRoutine outer => .inRoutine (outer.relocate f)

/-- The receiver at another place. -/
def Receiver.relocate : Receiver → Receiver
  | .this place => .this (f place)
  | .named name place => .named name (f place)

/-- The callee at another place. -/
def Callee.relocate : Callee → Callee
  | .own name place => .own name (f place)
  | .member receiver name => .member (receiver.relocate f) name

/-- What is in front of an operand, with other places. -/
def Pending.relocate (p : Pending) : Pending :=
  ⟨p.left.map fun (left, op, place) => (left.relocate f, op, f place), p.signs⟩

/-- What surrounds an expression, with other places. -/
@[simp] def ExprContext.relocate {g : Goal} : ExprContext g → ExprContext g
  | .alone => .alone
  | .group outer context => .group (outer.relocate f) context.relocate
  | .subscript target outer context =>
    .subscript (target.relocate f) (outer.relocate f) context.relocate
  | .argument callee earlier outer context =>
    .argument (callee.relocate f) (earlier.map (Expr.relocate f)) (outer.relocate f)
      context.relocate
  | .assignedPlace place name outer => .assignedPlace (f place) name (outer.relocate f)
  | .assignedValue place name element outer =>
    .assignedValue (f place) name (element.map (Expr.relocate f)) (outer.relocate f)
  | .performed place outer => .performed (f place) (outer.relocate f)
  | .givenBack place outer => .givenBack (f place) (outer.relocate f)
  | .ifCondition outer => .ifCondition (outer.relocate f)
  | .whileCondition outer => .whileCondition (outer.relocate f)

/-- The state with other places in what has been read. -/
def State.relocate {g : Goal} : State g → State g
  | .operand front context => .operand (front.relocate f) (context.relocate f)
  | .named name place front context =>
    .named name (f place) (front.relocate f) (context.relocate f)
  | .self place front context => .self (f place) (front.relocate f) (context.relocate f)
  | .primary e front context => .primary (e.relocate f) (front.relocate f) (context.relocate f)
  | .whole e front context => .whole (e.relocate f) (front.relocate f) (context.relocate f)
  | .memberName receiver front context =>
    .memberName (receiver.relocate f) (front.relocate f) (context.relocate f)
  | .openArguments callee front context =>
    .openArguments (callee.relocate f) (front.relocate f) (context.relocate f)
  | .firstArgument callee front context =>
    .firstArgument (callee.relocate f) (front.relocate f) (context.relocate f)
  | .statement context => .statement (context.relocate f)
  | .openBlock context => .openBlock (context.relocate f)
  | .block earlier context => .block (earlier.map (Stmt.relocate f)) (context.relocate f)
  | .assignedName place context => .assignedName (f place) (context.relocate f)
  | .assignedTo place name context => .assignedTo (f place) name (context.relocate f)
  | .assignedElement place name subscript context =>
    .assignedElement (f place) name (subscript.relocate f) (context.relocate f)
  | .givenBack place context => .givenBack (f place) (context.relocate f)
  | .openIf context => .openIf (context.relocate f)
  | .openWhile context => .openWhile (context.relocate f)
  | .consequentDone condition body context =>
    .consequentDone (condition.relocate f) (body.map (Stmt.relocate f)) (context.relocate f)
  | .declaredType place context => .declaredType (f place) (context.relocate f)
  | .declaredName place type names context =>
    .declaredName (f place) type names (context.relocate f)
  | .declaredMore place type names context =>
    .declaredMore (f place) type names (context.relocate f)
  | .classWord => .classWord
  | .className place => .className (f place)
  | .openClass place name => .openClass (f place) name
  | .members owner => .members (owner.relocate f)
  | .routineType owner kind place => .routineType (owner.relocate f) kind (f place)
  | .routineName owner kind place type => .routineName (owner.relocate f) kind (f place) type
  | .openParameters routine => .openParameters (routine.relocate f)
  | .firstParameter routine => .firstParameter (routine.relocate f)
  | .parameterType routine => .parameterType (routine.relocate f)
  | .parameterName routine type => .parameterName (routine.relocate f) type
  | .moreParameters routine => .moreParameters (routine.relocate f)
  | .classDone tree => .classDone (tree.relocate f)

/-- The outcome with other places. -/
def Outcome.relocate {g : Goal} : Outcome g → Outcome g
  | .next state => .next (state.relocate f)
  | .complete tree taken => .complete (g.relocate f tree) taken
  | .refuse error taken => .refuse (error.relocate f) taken

/-! ### What is not a place -/

variable {f}

@[simp] theorem Token.relocate_kind (t : Token) : (t.relocate f).kind = t.kind := rfl

@[simp] theorem Token.relocate_value (t : Token) : (t.relocate f).value = t.value := rfl

@[simp] theorem Token.relocate_position (t : Token) :
    (t.relocate f).position = f t.position := rfl

@[simp] theorem Token.relocate_last (t : Token) : (t.relocate f).span.last = f t.span.last := rfl

@[simp] theorem Token.relocate_type? (t : Token) (withVoid : Bool) :
    (t.relocate f).type? withVoid = t.type? withVoid := rfl

@[simp] theorem Token.relocate_routine? (t : Token) : (t.relocate f).routine? = t.routine? := rfl

@[simp] theorem Token.relocate_constant? (t : Token) :
    (t.relocate f).constant? = t.constant? := rfl

/-! ### Parts put together -/

@[simp] theorem OpenClass.relocate_add (c : OpenClass) (m : Member) :
    (c.add m).relocate f = (c.relocate f).add (m.relocate f) := rfl

@[simp] theorem OpenClass.relocate_close (c : OpenClass) :
    c.close.relocate f = (c.relocate f).close := by
  simp [close, relocate, ClassTree.relocate]

@[simp] theorem OpenRoutine.relocate_close (r : OpenRoutine) (body : List Stmt) :
    (r.close body).relocate f = (r.relocate f).close (body.map (Stmt.relocate f)) := by
  simp [close, relocate, Member.relocate, Routine.relocate]

@[simp] theorem Receiver.relocate_expr (r : Receiver) :
    r.expr.relocate f = (r.relocate f).expr := by
  cases r <;> rfl

@[simp] theorem Receiver.relocate_place (r : Receiver) : (r.relocate f).place = f r.place := by
  cases r <;> rfl

@[simp] theorem Callee.relocate_call (c : Callee) (arguments : List Expr) :
    (c.call arguments).relocate f = (c.relocate f).call (arguments.map (Expr.relocate f)) := by
  cases c <;> simp [call, relocate]

theorem relocate_signed (signs : List UnaryOp) (operand : Expr) :
    (signs.foldl (fun e op => .unary op e) operand).relocate f =
      signs.foldl (fun e op => .unary op e) (operand.relocate f) := by
  induction signs generalizing operand with
  | nil => rfl
  | cons op signs ih => rw [List.foldl_cons, List.foldl_cons, ih, Expr.relocate]

@[simp] theorem Pending.relocate_close (p : Pending) (operand : Expr) :
    (p.close operand).relocate f = (p.relocate f).close (operand.relocate f) := by
  obtain ⟨_ | ⟨left, op, place⟩, signs⟩ := p <;> simp [close, relocate, relocate_signed]

@[simp] theorem Stmt.relocate_assignment (place : Position) (name : String)
    (subscript : Option Expr) (value : Expr) :
    (assignment place name subscript value).relocate f =
      assignment (f place) name (subscript.map (Expr.relocate f)) (value.relocate f) := by
  cases subscript <;> rfl

/-! ### Steps -/

section

variable {g : Goal}

theorem StmtContext.relocate_resume (context : StmtContext g) (s : Stmt) :
    (context.resume s).relocate f = (context.relocate f).resume (s.relocate f) := by
  cases context <;> rfl

theorem BlockContext.relocate_resume (context : BlockContext g) (ss : List Stmt) :
    (context.resume ss).relocate f =
      (context.relocate f).resume (ss.map (Stmt.relocate f)) := by
  cases context with
  | body routine => exact congrArg (Outcome.next ∘ State.members) (routine.relocate_close ss)
  | consequent condition outer => rfl
  | alternative condition first outer => simp [resume, StmtContext.relocate_resume]
  | loop condition outer => simp [resume, StmtContext.relocate_resume]

theorem DeclarationContext.relocate_resume (context : DeclarationContext g) (d : Declaration) :
    (context.resume d).relocate f = (context.relocate f).resume (d.relocate f) := by
  cases context with
  | shared owner => rfl
  | perObject owner => rfl
  | inRoutine outer => exact outer.relocate_resume (.declare d)

theorem ExprContext.relocate_resume (context : ExprContext g) (e : Expr) (t : Token) :
    (context.resume e t).relocate f =
      (context.relocate f).resume (e.relocate f) (t.relocate f) := by
  cases context <;> simp only [resume, relocate, Token.relocate_kind]
  case alone => rfl
  case argument callee earlier outer context =>
    split
    · rfl
    · simp [Outcome.relocate, State.relocate]
    · rfl
  -- behind a statement that the expression ends, what surrounds the statement goes on
  case assignedValue place name element outer =>
    split
    · rw [outer.relocate_resume, Stmt.relocate_assignment]
    · rfl
  case performed place outer =>
    split
    · exact outer.relocate_resume (.perform e (some place))
    · rfl
  case givenBack place outer =>
    split
    · exact outer.relocate_resume (.giveBack (some e) (some place))
    · rfl
  all_goals split <;> rfl

namespace State

theorem relocate_afterOperand (e : Expr) (front : Pending) (context : ExprContext g) (t : Token) :
    (afterOperand e front context t).relocate f =
      afterOperand (e.relocate f) (front.relocate f) (context.relocate f) (t.relocate f) := by
  simp only [afterOperand, Token.relocate_kind]
  split
  · split
    · simp [Outcome.relocate, State.relocate, Pending.relocate]
    · simp [ExprContext.relocate_resume]
  · simp [ExprContext.relocate_resume]

theorem relocate_afterPrimary (e : Expr) (front : Pending) (context : ExprContext g) (t : Token) :
    (afterPrimary e front context t).relocate f =
      afterPrimary (e.relocate f) (front.relocate f) (context.relocate f) (t.relocate f) := by
  simp only [afterPrimary, Token.relocate_kind]
  split
  · rfl
  · exact relocate_afterOperand ..

theorem relocate_beginOperand (front : Pending) (context : ExprContext g) (t : Token) :
    (beginOperand front context t).relocate f =
      beginOperand (front.relocate f) (context.relocate f) (t.relocate f) := by
  simp only [beginOperand, Token.relocate_kind, Token.relocate_constant?, Token.relocate_value]
  split
  -- of numbers the value is looked at, and of strings the length
  case h_4 => split <;> rfl
  case h_5 => rw [apply_ite (Outcome.relocate f)]; rfl
  all_goals rfl

theorem relocate_beginStatement (context : StmtContext g) (t : Token) :
    (beginStatement context t).relocate f =
      beginStatement (context.relocate f) (t.relocate f) := by
  simp only [beginStatement, Token.relocate_kind]
  split <;> rfl

theorem relocate_inBlock (earlier : List Stmt) (context : BlockContext g) (t : Token) :
    (inBlock earlier context t).relocate f =
      inBlock (earlier.map (Stmt.relocate f)) (context.relocate f) (t.relocate f) := by
  simp only [inBlock, Token.relocate_kind]
  split
  · rw [BlockContext.relocate_resume, List.map_reverse]
  · rw [relocate_beginStatement, StmtContext.relocate]

theorem relocate_afterStatement (s : Stmt) (context : StmtContext g) (t : Token) :
    (afterStatement s context t).relocate f =
      afterStatement (s.relocate f) (context.relocate f) (t.relocate f) := by
  cases context with
  | alone => rfl
  | inside earlier outer =>
    rw [StmtContext.relocate, afterStatement, afterStatement, relocate_inBlock, List.map_cons]

theorem relocate_inClass (owner : OpenClass) (t : Token) :
    (inClass owner t).relocate f = inClass (owner.relocate f) (t.relocate f) := by
  simp only [inClass, Token.relocate_kind, Token.relocate_routine?]
  split
  · simp [Outcome.relocate, State.relocate]
  · rfl
  · rfl
  · split <;> rfl

theorem relocate_beginParameter (routine : OpenRoutine) (t : Token) :
    (beginParameter routine t).relocate f =
      beginParameter (routine.relocate f) (t.relocate f) := by
  simp only [beginParameter, Token.relocate_type?]
  split <;> rfl

/-- **A step does not look at places.** -/
theorem relocate_step (s : State g) (t : Token) :
    (s.step t).relocate f = (s.relocate f).step (t.relocate f) := by
  cases s <;> simp only [step, relocate]
  case operand => exact relocate_beginOperand ..
  case primary => exact relocate_afterPrimary ..
  case whole => exact relocate_afterOperand ..
  case statement => exact relocate_beginStatement ..
  case block => exact relocate_inBlock ..
  case members => exact relocate_inClass ..
  case parameterType => exact relocate_beginParameter ..
  case classDone => rfl
  all_goals simp only [Token.relocate_kind, Token.relocate_type?, Token.relocate_value]
  case named name place front context =>
    split
    · rfl
    · rfl
    · exact relocate_afterPrimary ..
  case self place front context =>
    split
    · rfl
    · exact relocate_afterPrimary ..
  case firstArgument callee front context =>
    split
    · simp [Outcome.relocate, State.relocate]
    · exact relocate_beginOperand ..
  case givenBack place context =>
    split
    · exact context.relocate_resume (.giveBack none (some place))
    · exact relocate_beginOperand ..
  case consequentDone condition body context =>
    split
    · rfl
    · rw [relocate_afterStatement, Stmt.relocate, relocateBlock_eq]
  case declaredMore place type names context =>
    split
    · rfl
    · exact DeclarationContext.relocate_resume ..
    · rfl
  case firstParameter routine =>
    split
    · rfl
    · exact relocate_beginParameter ..
  all_goals split <;> rfl

/-! ### Runs -/

theorem relocate_endOfExpr (context : ExprContext g) (e : Expr) :
    endOfExpr (context.relocate f) (e.relocate f) =
      (endOfExpr context e).map (g.relocate f) := by
  cases context <;> rfl

/-- What the end of the text does to a state does not look at places. -/
theorem relocate_atEnd (s : State g) : (s.relocate f).atEnd = s.atEnd.map (g.relocate f) := by
  cases s <;> try rfl
  case named name place front context =>
    simpa [atEnd, relocate] using relocate_endOfExpr context (front.close (.reference name place))
  case self place front context =>
    simpa [atEnd, relocate] using relocate_endOfExpr context (front.close (.this place))
  case primary e front context =>
    simpa [atEnd, relocate] using relocate_endOfExpr context (front.close e)
  case whole e front context =>
    simpa [atEnd, relocate] using relocate_endOfExpr context (front.close e)
  case consequentDone condition body context =>
    cases context with
    | alone => simp [atEnd, relocate, Goal.relocate, Except.map]
    | inside => rfl

/-- What reading gives, with other places. -/
def relocateResult (f : Position → Position) (x : Except CompileError g.Tree) :
    Except CompileError g.Tree :=
  (x.mapError (CompileError.relocate f)).map (g.relocate f)

/-- **Tokens with other places are read as the same tree with other places, or give the same error
at another place.** -/
theorem relocate_run (failure : Option CompileError) (s : State g) (ts : List Token)
    (last : Position) :
    ((s.relocate f).run (failure.map (CompileError.relocate f)) (ts.map (Token.relocate f))
        (f last)).1 =
      relocateResult f (s.run failure ts last).1 := by
  induction ts generalizing s last with
  | nil =>
    cases failure with
    | some e => rfl
    | none =>
      simp only [List.map_nil, run, Option.map_none, relocate_atEnd]
      cases s.atEnd <;> rfl
  | cons t ts ih =>
    simp only [List.map_cons, run, ← relocate_step, Token.relocate_last]
    cases s.step t with
    | next s' => exact ih s' t.span.last
    | complete tree taken => cases taken <;> rfl
    | refuse e taken => cases taken <;> rfl

end State

end

end JackCompiler
