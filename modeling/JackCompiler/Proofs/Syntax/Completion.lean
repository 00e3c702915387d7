import JackCompiler.Proofs.Lexeme.Spelling
import JackCompiler.Proofs.Syntax.Steps
/-!
# Every class can be completed

From every state a class can be read to its end, with tokens that a source text may hold. The part
under way is brought to its end as shortly as possible, and then what surrounds it, from the inside
out: an operand is `null`, a statement is `return`, a block or a class ends at once.

        let a [ ( 1 +    ◀ read           null ) ] = null ; } }    ◀ to complete it
-/

namespace JackCompiler

/-! ### Tokens to complete with -/

namespace Token

/-- A token that stands nowhere. -/
def placed (kind : TokenKind) (value : String) : Token :=
  ⟨kind, value, ⟨Position.start, Position.start⟩⟩

/-- A token of a reserved word. -/
def word (k : Keyword) : Token := placed (.keyword k) k.text

/-- A token of a symbol. -/
def mark (s : Symbol) : Token := placed (.symbol s) s.text

/-- A token of a name. -/
def someName : Token := placed .identifier "a"

theorem word_spelled (k : Keyword) : (word k).Spelled :=
  ⟨Utf8.bytes k.text, rfl, by cases k <;> decide +kernel⟩

theorem mark_spelled (s : Symbol) : (mark s).Spelled :=
  ⟨Utf8.bytes s.text, rfl, by cases s <;> decide +kernel⟩

theorem someName_spelled : someName.Spelled :=
  ⟨[97], ⟨97, [], rfl, by decide, by simp⟩, by decide +kernel⟩

end Token

/-! ### States that can be completed -/

/-- Tokens of a source text lead on to the end of a class. -/
def State.Completes (s : State .class_) : Prop :=
  ∃ rest tree, (∀ t ∈ rest, t.Spelled) ∧ s.after rest = some (.classDone tree)

/-- A step has led to a state that can be completed. -/
def Outcome.Completes (o : Outcome .class_) : Prop := ∃ s, o = .next s ∧ s.Completes

namespace State

variable {s : State .class_}

theorem Completes.of_step {t : Token} (spelled : t.Spelled) (h : (s.step t).Completes) :
    s.Completes := by
  obtain ⟨s', step, rest, tree, all, done⟩ := h
  refine ⟨t :: rest, tree, List.forall_mem_cons.2 ⟨spelled, all⟩, ?_⟩
  rw [after_cons step, done]

theorem Completes.next (h : s.Completes) : (Outcome.next s).Completes := ⟨s, rfl, h⟩

theorem completes_of_mark (m : Symbol) (h : (s.step (.mark m)).Completes) : s.Completes :=
  .of_step (Token.mark_spelled m) h

theorem completes_of_word (k : Keyword) (h : (s.step (.word k)).Completes) : s.Completes :=
  .of_step (Token.word_spelled k) h

theorem completes_of_name (h : (s.step .someName).Completes) : s.Completes :=
  .of_step Token.someName_spelled h

theorem classDone_completes (tree : ClassTree) : (classDone tree).Completes :=
  ⟨[], tree, by simp, rfl⟩

theorem members_completes (owner : OpenClass) : (members owner).Completes :=
  completes_of_mark .closeBrace (classDone_completes _).next

end State

/-! ### What surrounds a statement -/

mutual

theorem StmtContext.resume_completes :
    ∀ (context : StmtContext .class_) (s : Stmt), (context.resume s).Completes
  | .inside earlier block, s => by
    refine State.Completes.next (State.completes_of_mark .closeBrace ?_)
    exact block.resume_completes (s :: earlier).reverse

theorem BlockContext.resume_completes :
    ∀ (context : BlockContext .class_) (ss : List Stmt), (context.resume ss).Completes
  | .body routine, ss => (State.members_completes (routine.close ss)).next
  | .consequent condition (.inside earlier block), ss => by
    refine State.Completes.next (State.completes_of_mark .closeBrace ?_)
    exact block.resume_completes (.ifThen condition ss :: earlier).reverse
  | .alternative condition first outer, ss =>
    outer.resume_completes (.ifElse condition first ss)
  | .loop condition outer, ss => outer.resume_completes (.repeatWhile condition ss)

end

theorem DeclarationContext.resume_completes (context : DeclarationContext .class_)
    (d : Declaration) : (context.resume d).Completes := by
  cases context with
  | shared owner => exact (State.members_completes _).next
  | perObject owner => exact (State.members_completes _).next
  | inRoutine outer => exact outer.resume_completes (.declare d)

namespace State

theorem block_completes (earlier : List Stmt) (context : BlockContext .class_) :
    (block earlier context).Completes :=
  completes_of_mark .closeBrace (context.resume_completes earlier.reverse)

theorem openBlock_completes (context : BlockContext .class_) : (openBlock context).Completes :=
  completes_of_mark .openBrace (block_completes [] context).next

end State

/-! ### What surrounds an expression -/

/-- The symbol that closes an expression is no operator, and brings the expression to its end. -/
theorem State.afterPrimary_closer (e : Expr) (front : Pending) (context : ExprContext .class_) :
    afterPrimary e front context (.mark context.closer) =
      context.resume (front.close e) (.mark context.closer) := by
  cases context <;> rfl

theorem State.afterOperand_closer (e : Expr) (front : Pending) (context : ExprContext .class_) :
    afterOperand e front context (.mark context.closer) =
      context.resume (front.close e) (.mark context.closer) := by
  cases context <;> rfl

theorem State.primary_completes_of {e : Expr} {front : Pending} {context : ExprContext .class_}
    (h : (context.resume (front.close e) (.mark context.closer)).Completes) :
    (primary e front context).Completes := by
  refine completes_of_mark context.closer ?_
  rwa [step, afterPrimary_closer]

theorem State.operand_completes_of {context : ExprContext .class_} {front : Pending}
    (h : ∀ e, (context.resume e (.mark context.closer)).Completes) :
    (operand front context).Completes :=
  completes_of_word .null (primary_completes_of (h _)).next

/-- A value that is assigned ends in a semicolon. -/
theorem State.assignedElement_completes (place : Position) (name : String) (subscript : Expr)
    (context : StmtContext .class_) : (assignedElement place name subscript context).Completes := by
  refine completes_of_mark .equal (State.operand_completes_of fun e => ?_).next
  exact context.resume_completes (.assignment place name (some subscript) e)

theorem ExprContext.resume_completes : ∀ (context : ExprContext .class_) (e : Expr),
    (context.resume e (.mark context.closer)).Completes
  | .group outer context, e =>
    (State.primary_completes_of (context.resume_completes (outer.close e))).next
  | .subscript target outer context, e => by
    refine State.Completes.next (State.completes_of_mark context.closer ?_)
    rw [State.step, State.afterOperand_closer]
    exact context.resume_completes (outer.close (.index target e))
  | .argument callee earlier outer context, e =>
    (State.primary_completes_of (context.resume_completes _)).next
  | .assignedPlace place name outer, e => (State.assignedElement_completes place name e outer).next
  | .assignedValue place name element outer, e =>
    outer.resume_completes (.assignment place name element e)
  | .performed place outer, e => outer.resume_completes (.perform e (some place))
  | .givenBack place outer, e => outer.resume_completes (.giveBack (some e) (some place))
  | .ifCondition outer, e => (State.openBlock_completes (.consequent e outer)).next
  | .whileCondition outer, e => (State.openBlock_completes (.loop e outer)).next

/-! ### Every state -/

namespace State

variable (e : Expr) (front : Pending) (context : ExprContext .class_)

theorem primary_completes : (primary e front context).Completes :=
  primary_completes_of (context.resume_completes (front.close e))

theorem operand_completes : (operand front context).Completes :=
  operand_completes_of context.resume_completes

theorem firstArgument_completes (callee : Callee) :
    (firstArgument callee front context).Completes :=
  completes_of_mark .closeParen (primary_completes _ front context).next

theorem openArguments_completes (callee : Callee) :
    (openArguments callee front context).Completes :=
  completes_of_mark .openParen (firstArgument_completes front context callee).next

theorem memberName_completes (receiver : Receiver) :
    (memberName receiver front context).Completes :=
  completes_of_name (openArguments_completes front context _).next

theorem assignedTo_completes (place : Position) (name : String)
    (context : StmtContext .class_) : (assignedTo place name context).Completes :=
  completes_of_mark .equal (operand_completes .empty (.assignedValue place name none context)).next

theorem givenBack_completes (place : Position) (context : StmtContext .class_) :
    (givenBack place context).Completes :=
  completes_of_mark .semicolon (context.resume_completes (.giveBack none (some place)))

theorem declaredMore_completes (place : Position) (type : JackType) (names : List String)
    (context : DeclarationContext .class_) : (declaredMore place type names context).Completes :=
  completes_of_mark .semicolon (context.resume_completes ⟨type, names.reverse, some place⟩)

theorem declaredName_completes (place : Position) (type : JackType) (names : List String)
    (context : DeclarationContext .class_) : (declaredName place type names context).Completes :=
  completes_of_name (declaredMore_completes place type _ context).next

theorem openClass_completes (place : Position) (name : String) :
    (openClass place name).Completes :=
  completes_of_mark .openBrace (members_completes _).next

theorem className_completes (place : Position) : (className place).Completes :=
  completes_of_name (openClass_completes place _).next

theorem openParameters_completes (routine : OpenRoutine) : (openParameters routine).Completes := by
  refine completes_of_mark .openParen (completes_of_mark .closeParen ?_ : Completes _).next
  exact (openBlock_completes (.body routine)).next

theorem routineName_completes (owner : OpenClass) (kind : RoutineKind) (place : Position)
    (type : JackType) : (routineName owner kind place type).Completes :=
  completes_of_name (openParameters_completes _).next

theorem moreParameters_completes (routine : OpenRoutine) : (moreParameters routine).Completes :=
  completes_of_mark .closeParen (openBlock_completes (.body routine)).next

theorem parameterName_completes (routine : OpenRoutine) (type : JackType) :
    (parameterName routine type).Completes :=
  completes_of_name (moreParameters_completes _).next

/-- **A class can be completed from every state.** -/
theorem completes (s : State .class_) : s.Completes := by
  cases s with
  | operand front context => exact operand_completes front context
  | named name place front context =>
    exact completes_of_mark .openParen (firstArgument_completes front context _).next
  | self place front context =>
    exact completes_of_mark .dot (memberName_completes front context _).next
  | primary e front context => exact primary_completes e front context
  | whole e front context =>
    refine completes_of_mark context.closer ?_
    rw [step, afterOperand_closer]
    exact context.resume_completes (front.close e)
  | memberName receiver front context => exact memberName_completes front context receiver
  | openArguments callee front context => exact openArguments_completes front context callee
  | firstArgument callee front context => exact firstArgument_completes front context callee
  | statement context =>
    exact completes_of_word .return_ (givenBack_completes _ context).next
  | openBlock context => exact openBlock_completes context
  | block earlier context => exact block_completes earlier context
  | assignedName place context =>
    exact completes_of_name (assignedTo_completes place _ context).next
  | assignedTo place name context => exact assignedTo_completes place name context
  | assignedElement place name subscript context =>
    exact assignedElement_completes place name subscript context
  | givenBack place context => exact givenBack_completes place context
  | openIf context =>
    exact completes_of_mark .openParen (operand_completes .empty (.ifCondition context)).next
  | openWhile context =>
    exact completes_of_mark .openParen (operand_completes .empty (.whileCondition context)).next
  | consequentDone condition body context =>
    exact completes_of_word .else_ (openBlock_completes (.alternative condition body context)).next
  | declaredType place context =>
    exact completes_of_word .int (declaredName_completes place .int [] context).next
  | declaredName place type names context => exact declaredName_completes place type names context
  | declaredMore place type names context => exact declaredMore_completes place type names context
  | classWord => exact completes_of_word .class_ (className_completes _).next
  | className place => exact className_completes place
  | openClass place name => exact openClass_completes place name
  | members owner => exact members_completes owner
  | routineType owner kind place =>
    exact completes_of_word .int (routineName_completes owner kind place .int).next
  | routineName owner kind place type => exact routineName_completes owner kind place type
  | openParameters routine => exact openParameters_completes routine
  | firstParameter routine =>
    exact completes_of_mark .closeParen (openBlock_completes (.body routine)).next
  | parameterType routine =>
    exact completes_of_word .int (parameterName_completes routine .int).next
  | parameterName routine type => exact parameterName_completes routine type
  | moreParameters routine => exact moreParameters_completes routine
  | classDone tree => exact classDone_completes tree

end State

end JackCompiler
