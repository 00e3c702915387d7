import JackCompiler.Proofs.Descent.Waiting
/-!
# The descent reads what the states read

Each function of the descent belongs to a state in which it is called and to what the states do
behind the tree that it gives back: the context of the state is what the callers have still to do.
So the answer of the states is the answer of the descent, for every function, at every place.

        operand front context   ── expression ──▶   what `context` does behind the expression
        statement context       ── statement ───▶   what `context` does behind the statement
-/

namespace JackCompiler.Descent

/-! ### What belongs to a function -/

/-- What a function reads is read by the states that belong to it, if so many calls may be open at
a time. Behind what it gives back goes on what surrounds it. -/
def Call.Agrees (n : Nat) : Call → Prop
  | .file => Call.file.Follows n (g := .class_) (·.readFrom .classWord) fun tree r => (.ok tree, r)
  | .classTree => Call.classTree.Follows n (·.readFrom .classWord) fun tree r =>
    r.readFrom (.classDone tree)
  | .members => ∀ owner, Call.members.Follows n (·.readFrom (.members owner)) fun ms r =>
    r.await (.symbol .closeBrace) fun _ r =>
      r.readFrom (.classDone ⟨owner.name, owner.members.reverse ++ ms, some owner.place⟩)
  | .member => ∀ owner,
    Call.member.Follows n (·.meet (State.beginMember owner) (.error "class member")) fun m r =>
      r.readFrom (.members (owner.add m))
  | .declaration word => ∀ {g : Goal} (context : DeclarationContext g),
    (Call.declaration word).Follows n
      (·.await (.keyword word) fun t r => r.readFrom (.declaredType t.position context))
      fun d r => r.onward (context.resume d)
  | .moreNames => ∀ {g : Goal} place type names (context : DeclarationContext g),
    Call.moreNames.Follows n (·.readFrom (.declaredMore place type names context)) fun ns r =>
      r.await (.symbol .semicolon) fun _ r =>
        r.onward (context.resume ⟨type, names.reverse ++ ns, some place⟩)
  | .typeName withVoid => ∀ {g : Goal} (next : JackType → State g),
    (Call.typeName withVoid).Follows n (·.meet (State.beginType withVoid next) (.error "type"))
      fun type r => r.readFrom (next type)
  | .routine => ∀ owner,
    Call.routine.Follows n (·.meet (State.beginRoutine owner) (.error Reader.anyToken)) fun x r =>
      r.readFrom (.members (owner.add (.routine x)))
  | .parameters => ∀ x, Call.parameters.Follows n (·.readFrom (.firstParameter x)) fun ps r =>
    r.await (.symbol .closeParen) fun _ r =>
      r.readFrom (.openBlock (.body { x with parameters := ps.reverse ++ x.parameters }))
  | .moreParameters => ∀ x,
    Call.moreParameters.Follows n (·.readFrom (.parameterType x)) fun ps r =>
      r.await (.symbol .closeParen) fun _ r =>
        r.readFrom (.openBlock (.body { x with parameters := ps.reverse ++ x.parameters }))
  | .block => ∀ {g : Goal} (context : BlockContext g),
    Call.block.Follows n (·.readFrom (.openBlock context)) fun ss r =>
      r.onward (context.resume ss)
  | .statements => ∀ {g : Goal} earlier (context : BlockContext g),
    Call.statements.Follows n (·.readFrom (.block earlier context)) fun ss r =>
      r.await (.symbol .closeBrace) fun _ r => r.onward (context.resume (earlier.reverse ++ ss))
  | .statement => ∀ {g : Goal} (context : StmtContext g),
    Call.statement.Follows n (·.readFrom (.statement context)) fun s r =>
      r.onward (context.resume s)
  | .letStatement => ∀ {g : Goal} (context : StmtContext g),
    Call.letStatement.Follows n
      (·.await (.keyword .let_) fun t r => r.readFrom (.assignedName t.position context))
      fun s r => r.onward (context.resume s)
  | .doStatement => ∀ {g : Goal} (context : StmtContext g),
    Call.doStatement.Follows n
      (·.await (.keyword .do_) fun t r =>
        r.readFrom (.operand .empty (.performed t.position context)))
      fun s r => r.onward (context.resume s)
  | .ifStatement => ∀ {g : Goal} (context : StmtContext g),
    Call.ifStatement.Follows n
      (·.await (.keyword .if_) fun _ r => r.readFrom (.openIf context))
      fun s r => r.onward (context.resume s)
  | .whileStatement => ∀ {g : Goal} (context : StmtContext g),
    Call.whileStatement.Follows n
      (·.await (.keyword .while_) fun _ r => r.readFrom (.openWhile context))
      fun s r => r.onward (context.resume s)
  | .returnStatement => ∀ {g : Goal} (context : StmtContext g),
    Call.returnStatement.Follows n
      (·.await (.keyword .return_) fun t r => r.readFrom (.givenBack t.position context))
      fun s r => r.onward (context.resume s)
  | .expression => ∀ {g : Goal} (context : ExprContext g),
    Call.expression.Follows n (·.readFrom (.operand .empty context)) fun e r =>
      r.meet (context.resume e) (State.endOfExpr context e)
  | .operators left => ∀ {g : Goal} (context : ExprContext g),
    (Call.operators left).Follows n (·.readFrom (.whole left .empty context)) fun e r =>
      r.meet (context.resume e) (State.endOfExpr context e)
  | .unary => ∀ {g : Goal} front (context : ExprContext g),
    Call.unary.Follows n (·.readFrom (.operand front context)) fun e r =>
      r.readFrom (.whole e front context)
  | .subscripted => ∀ {g : Goal} front (context : ExprContext g),
    Call.subscripted.Follows n (·.meet (State.beginTerm front context) (.error "expression"))
      fun e r => r.readFrom (.whole e front context)
  | .primary => ∀ {g : Goal} front (context : ExprContext g),
    Call.primary.Follows n (·.meet (State.beginTerm front context) (.error "expression"))
      fun e r => r.readFrom (.primary e front context)
  | .memberCall receiver => ∀ {g : Goal} front (context : ExprContext g),
    (Call.memberCall receiver).Follows n
      (·.await (.symbol .dot) fun _ r => r.readFrom (.memberName receiver front context))
      fun e r => r.readFrom (.primary e front context)
  | .arguments => ∀ {g : Goal} callee front (context : ExprContext g),
    Call.arguments.Follows n (·.readFrom (.openArguments callee front context)) fun es r =>
      r.readFrom (.primary (callee.call es) front context)
  | .moreArguments => ∀ {g : Goal} callee earlier front (context : ExprContext g),
    Call.moreArguments.Follows n
      (·.readFrom (.operand .empty (.argument callee earlier front context))) fun es r =>
      r.await (.symbol .closeParen) fun _ r =>
        r.readFrom (.primary (callee.call (earlier.reverse ++ es)) front context)

/-! ### One more open call -/

section

open Script Reader

variable {g : Goal} {n : Nat} (h : ∀ c : Call, c.Agrees n)
include h

theorem file_agrees : Call.file.Agrees (n + 1) := by
  refine Call.follows_succ fun r => ?_
  refine (follows_enter (h .classTree)).bind fun tree r => ?_
  refine follows_peek readFrom_fails (fun t rest ahead => ?_) fun ahead failure => ?_
  · rw [readFrom_eq_meet, meet_token ahead]
    exact follows_fail _
  · rw [readFrom_eq_meet]
    simp only [meet, ahead, failure, State.atEnd]
    exact follows_pure rfl

theorem classTree_agrees : Call.classTree.Agrees (n + 1) := by
  refine Call.follows_succ fun r => ?_
  refine (follows_wait rfl).bind fun word r => ?_
  refine (follows_wait rfl).bind fun name r => ?_
  refine (follows_wait_mark rfl).bind fun _ r => ?_
  refine (follows_enter (h .members _)).bind fun members r => ?_
  refine follows_mark.bind fun _ r => ?_
  exact follows_pure rfl

theorem members_agrees : Call.members.Agrees (n + 1) := by
  intro owner
  refine Call.follows_succ fun r => ?_
  refine follows_if readFrom_fails (fun t rest ahead same => ?_) fun other _ => ?_
  · have step : (State.members owner).step t = .next (.classDone owner.close) := by
      simp only [State.step, State.inClass, same]
    refine follows_pure ?_
    rw [readFrom_await (fun _ => .classDone owner.close) ahead same step, List.append_nil]
    rfl
  · refine follows_peek readFrom_fails (fun t rest ahead => ?_) fun ahead _ => ?_
    · -- A brace would end the class; there is a token, and it is none.
      have member : r.readFrom (.members owner) =
          r.meet (State.beginMember owner) (.error "class member") := by
        rw [readFrom_eq_meet, meet_token ahead, meet_token ahead, State.beginMember,
          if_neg (other t (by rw [ahead]; rfl)), State.step]
      rw [member]
      refine (follows_enter (h .member owner)).bind fun first r => ?_
      refine (follows_enter (h .members _)).bind fun others r => ?_
      refine follows_pure ?_
      simp only [OpenClass.add, List.reverse_cons, List.append_assoc, List.singleton_append]
    · rw [readFrom_eq_meet]
      exact follows_missing ahead

theorem member_agrees : Call.member.Agrees (n + 1) := by
  intro owner
  refine Call.follows_succ fun r => ?_
  refine follows_kindAhead meet_fails (fun t rest ahead => ?_) fun ahead _ => ?_
  · have routine (kind : RoutineKind) (opened : t.routine? = some kind) :
        (enter .routine >>= fun x => pure (Member.routine x)).Follows n r
          (r.meet (State.beginMember owner) (.error "class member"))
          fun m r => r.readFrom (.members (owner.add m)) := by
      rw [meet_token ahead, State.beginMember_routine owner opened, ← meet_token ahead]
      refine (follows_enter (h .routine owner)).bind fun x r => ?_
      exact follows_pure rfl
    split <;> rename_i same
    · have same : t.kind = .keyword .static := Option.some.inj same
      have here : State.beginMember owner t = .next (.declaredType t.position (.shared owner)) := by
        simp [State.beginMember, State.inClass, same]
      refine (follows_opened ahead same here (h (.declaration _) _)).bind fun d r => ?_
      exact follows_pure rfl
    · have same : t.kind = .keyword .field := Option.some.inj same
      have here : State.beginMember owner t =
          .next (.declaredType t.position (.perObject owner)) := by
        simp [State.beginMember, State.inClass, same]
      refine (follows_opened ahead same here (h (.declaration _) _)).bind fun d r => ?_
      exact follows_pure rfl
    · exact routine .function (by simp only [Token.routine?, Option.some.inj same])
    · exact routine .method (by simp only [Token.routine?, Option.some.inj same])
    · exact routine .constructor (by simp only [Token.routine?, Option.some.inj same])
    · -- No other kind of token opens a member, the closing brace included.
      refine follows_refused ahead ?_
      simp only [State.beginMember, State.inClass, Token.routine?]
      split
      · rfl
      · split <;> simp_all
  · exact follows_missing ahead

theorem declaration_agrees (word : Keyword) : (Call.declaration word).Agrees (n + 1) := by
  intro g context
  refine Call.follows_succ fun r => ?_
  refine follows_expect.bind fun opening r => ?_
  rw [readFrom_eq_meet]
  refine (follows_enter (h (.typeName false) fun type =>
    .declaredName opening.position type [] context)).bind fun type r => ?_
  refine (follows_wait rfl).bind fun name r => ?_
  refine (follows_enter (h .moreNames _ _ _ _)).bind fun others r => ?_
  refine follows_mark.bind fun _ r => ?_
  exact follows_pure rfl

theorem moreNames_agrees : Call.moreNames.Agrees (n + 1) := by
  intro g place type names context
  refine Call.follows_succ fun r => ?_
  refine follows_if readFrom_fails (fun t rest ahead same => ?_) fun other _ => ?_
  · have step : (State.declaredMore place type names context).step t =
        .next (.declaredName place type names context) := by
      simp only [State.step, same]
    rw [readFrom_token ahead step]
    refine follows_take ahead ?_
    refine (follows_wait rfl).bind fun name r => ?_
    refine (follows_enter (h .moreNames _ _ _ _)).bind fun others r => ?_
    refine follows_pure ?_
    simp only [List.reverse_cons, List.append_assoc, List.singleton_append]
  · refine follows_pure ?_
    rw [List.append_nil]
    exact readFrom_unless rfl other

omit h in
theorem typeName_agrees (withVoid : Bool) : (Call.typeName withVoid).Agrees (n + 1) := by
  intro g next
  refine Call.follows_succ fun r => ?_
  refine follows_peek meet_fails (fun t rest ahead => ?_) fun ahead _ => ?_
  · rw [Option.bind_some]
    rcases found : t.type? withVoid with _ | type
    · refine follows_refused ahead ?_
      simp only [State.beginType, found]
    · have step : State.beginType withVoid next t = .next (next type) := by
        simp only [State.beginType, found]
      rw [meet_token ahead, step]
      refine follows_take ahead ?_
      exact follows_pure rfl
  · exact follows_missing ahead

theorem routine_agrees : Call.routine.Agrees (n + 1) := by
  intro owner
  refine Call.follows_succ fun r => ?_
  refine follows_next fun word rest ahead => ?_
  rw [meet_token ahead]
  rcases opened : word.routine? with _ | kind
  · have step : State.beginRoutine owner word = .refuse
        (.unexpectedToken "subroutine" word.describe (some word.position)) true := by
      simp only [State.beginRoutine, opened]
    rw [step]
    exact follows_fail _
  · have step : State.beginRoutine owner word =
        .next (.routineType owner kind word.position) := by
      simp only [State.beginRoutine, opened]
    rw [step]
    change Script.Follows n _ _ (readFrom (.routineType owner kind word.position) _) _
    rw [readFrom_eq_meet]
    refine (follows_enter (h (.typeName _) fun type =>
      .routineName owner kind word.position type)).bind fun type r => ?_
    refine (follows_wait rfl).bind fun name r => ?_
    refine (follows_wait_mark rfl).bind fun _ r => ?_
    refine (follows_enter (h .parameters _)).bind fun parameters r => ?_
    refine follows_mark.bind fun _ r => ?_
    refine (follows_enter (h .block _)).bind fun body r => ?_
    refine follows_pure ?_
    simp only [BlockContext.resume, OpenRoutine.close, List.append_nil, List.reverse_reverse]
    rfl

theorem parameters_agrees : Call.parameters.Agrees (n + 1) := by
  intro x
  refine Call.follows_succ fun r => ?_
  refine follows_if readFrom_fails (fun t rest ahead same => ?_) fun other _ => ?_
  · have step : (State.firstParameter x).step t = .next (.openBlock (.body x)) := by
      simp only [State.step, same]
    exact follows_pure (readFrom_await (fun _ => .openBlock (.body x)) ahead same step)
  · have more : r.readFrom (.firstParameter x) = r.readFrom (.parameterType x) :=
      readFrom_otherwise rfl other
    rw [more]
    exact follows_enter (h .moreParameters x)

theorem moreParameters_agrees : Call.moreParameters.Agrees (n + 1) := by
  intro x
  refine Call.follows_succ fun r => ?_
  rw [readFrom_eq_meet]
  refine (follows_enter (h (.typeName false) (.parameterName x))).bind fun type r => ?_
  refine (follows_wait rfl).bind fun name r => ?_
  refine follows_if readFrom_fails (fun t rest ahead same => ?_) fun other _ => ?_
  · have step (x : OpenRoutine) : (State.moreParameters x).step t = .next (.parameterType x) := by
      simp only [State.step, same]
    rw [readFrom_token ahead (step _)]
    refine follows_take ahead ?_
    refine (follows_enter (h .moreParameters _)).bind fun others r => ?_
    refine follows_pure ?_
    simp only [OpenRoutine.add, List.reverse_cons, List.append_assoc, List.singleton_append]
  · have last (x : OpenRoutine) : r.readFrom (.moreParameters x) =
        r.await (.symbol .closeParen) fun _ r => r.onward (.next (.openBlock (.body x))) :=
      readFrom_unless rfl other
    exact follows_pure (last _)

theorem block_agrees : Call.block.Agrees (n + 1) := by
  intro g context
  refine Call.follows_succ fun r => ?_
  refine (follows_wait_mark rfl).bind fun _ r => ?_
  refine (follows_enter (h .statements _ _)).bind fun body r => ?_
  refine follows_mark.bind fun _ r => ?_
  exact follows_pure rfl

theorem statements_agrees : Call.statements.Agrees (n + 1) := by
  intro g earlier context
  refine Call.follows_succ fun r => ?_
  refine follows_if readFrom_fails (fun t rest ahead same => ?_) fun other _ => ?_
  · have step : (State.block earlier context).step t = context.resume earlier.reverse := by
      simp only [State.step, State.inBlock, same]
    refine follows_pure ?_
    rw [readFrom_eq_meet, List.append_nil]
    refine meet_await ahead same ?_
    rw [step, meetToken_block]
  · refine follows_peek readFrom_fails (fun t rest ahead => ?_) fun ahead _ => ?_
    · have statement : r.readFrom (.block earlier context) =
          r.readFrom (.statement (.inside earlier context)) := by
        rw [readFrom_eq_meet, readFrom_eq_meet, meet_token ahead, meet_token ahead]
        simp only [State.step, State.inBlock]
        split <;> rename_i same
        · exact absurd same (other t (by rw [ahead]; rfl))
        · rfl
      rw [statement]
      refine (follows_enter (h .statement _)).bind fun first r => ?_
      refine (follows_enter (h .statements (first :: earlier) context)).bind fun others r => ?_
      refine follows_pure ?_
      simp only [List.reverse_cons, List.append_assoc, List.singleton_append]
    · rw [readFrom_eq_meet]
      exact follows_missing ahead

theorem statement_agrees : Call.statement.Agrees (n + 1) := by
  intro g context
  refine Call.follows_succ fun r => ?_
  refine follows_kindAhead readFrom_fails (fun t rest ahead => ?_) fun ahead _ => ?_
  all_goals rw [readFrom_eq_meet]
  · split <;> rename_i same
    · have same : t.kind = .keyword .var := Option.some.inj same
      have here : (State.statement context).step t =
          .next (.declaredType t.position (.inRoutine context)) := by
        simp only [State.step, State.beginStatement, same]
      refine (follows_opened ahead same here (h (.declaration _) _)).bind fun d r => ?_
      exact follows_pure rfl
    · have same : t.kind = .keyword .let_ := Option.some.inj same
      refine follows_opened ahead same ?_ (h .letStatement context)
      simp only [State.step, State.beginStatement, same]
    · have same : t.kind = .keyword .do_ := Option.some.inj same
      refine follows_opened ahead same ?_ (h .doStatement context)
      simp only [State.step, State.beginStatement, same]
    · have same : t.kind = .keyword .if_ := Option.some.inj same
      refine follows_opened ahead same ?_ (h .ifStatement context)
      simp only [State.step, State.beginStatement, same]
    · have same : t.kind = .keyword .while_ := Option.some.inj same
      refine follows_opened ahead same ?_ (h .whileStatement context)
      simp only [State.step, State.beginStatement, same]
    · have same : t.kind = .keyword .return_ := Option.some.inj same
      refine follows_opened ahead same ?_ (h .returnStatement context)
      simp only [State.step, State.beginStatement, same]
    · refine follows_refused ahead ?_
      simp only [State.step, State.beginStatement]
      split <;> simp_all
  · exact follows_missing ahead

theorem letStatement_agrees : Call.letStatement.Agrees (n + 1) := by
  intro g context
  refine Call.follows_succ fun r => ?_
  refine follows_expect.bind fun word r => ?_
  refine (follows_wait rfl).bind fun name r => ?_
  refine follows_if readFrom_fails (fun t rest ahead same => ?_) fun other _ => ?_
  · have step : (State.assignedTo word.position name.value context).step t =
        .next (.operand .empty (.assignedPlace word.position name.value context)) := by
      simp only [State.step, same]
    rw [readFrom_token ahead step]
    refine follows_take ahead ?_
    refine (follows_enter (h .expression _)).bind fun subscript r => ?_
    refine (follows_close (by rfl)).bind fun _ r => ?_
    refine (follows_wait_mark rfl).bind fun _ r => ?_
    refine (follows_enter (h .expression _)).bind fun value r => ?_
    refine (follows_close (by rfl)).bind fun _ r => ?_
    exact follows_pure rfl
  · have equal : r.readFrom (.assignedTo word.position name.value context) =
        r.await (.symbol .equal) fun _ r => r.onward
          (.next (.operand .empty (.assignedValue word.position name.value none context))) :=
      readFrom_unless rfl other
    rw [equal]
    refine follows_mark.bind fun _ r => ?_
    refine (follows_enter (h .expression _)).bind fun value r => ?_
    refine (follows_close (by rfl)).bind fun _ r => ?_
    exact follows_pure rfl

theorem doStatement_agrees : Call.doStatement.Agrees (n + 1) := by
  intro g context
  refine Call.follows_succ fun r => ?_
  refine follows_expect.bind fun word r => ?_
  refine (follows_enter (h .expression _)).bind fun call r => ?_
  refine (follows_close (by rfl)).bind fun _ r => ?_
  exact follows_pure rfl

theorem ifStatement_agrees : Call.ifStatement.Agrees (n + 1) := by
  intro g context
  refine Call.follows_succ fun r => ?_
  refine follows_expect.bind fun word r => ?_
  refine (follows_wait_mark rfl).bind fun _ r => ?_
  refine (follows_enter (h .expression _)).bind fun condition r => ?_
  refine (follows_close (by rfl)).bind fun _ r => ?_
  refine (follows_enter (h .block _)).bind fun body r => ?_
  change Script.Follows n _ r (r.readFrom (.consequentDone condition body context)) _
  refine follows_if readFrom_fails (fun t rest ahead same => ?_) fun other reached => ?_
  · have step : (State.consequentDone condition body context).step t =
        .next (.openBlock (.alternative condition body context)) := by
      simp only [State.step, same]
    rw [readFrom_token ahead step]
    refine follows_take ahead ?_
    refine (follows_enter (h .block _)).bind fun alternative r => ?_
    exact follows_pure rfl
  · exact follows_pure (readFrom_consequentDone other reached)

theorem whileStatement_agrees : Call.whileStatement.Agrees (n + 1) := by
  intro g context
  refine Call.follows_succ fun r => ?_
  refine follows_expect.bind fun word r => ?_
  refine (follows_wait_mark rfl).bind fun _ r => ?_
  refine (follows_enter (h .expression _)).bind fun condition r => ?_
  refine (follows_close (by rfl)).bind fun _ r => ?_
  refine (follows_enter (h .block _)).bind fun body r => ?_
  exact follows_pure rfl

theorem returnStatement_agrees : Call.returnStatement.Agrees (n + 1) := by
  intro g context
  refine Call.follows_succ fun r => ?_
  refine follows_expect.bind fun word r => ?_
  refine follows_if readFrom_fails (fun t rest ahead same => ?_) fun other _ => ?_
  · have step : (State.givenBack word.position context).step t =
        context.resume (.giveBack none (some word.position)) := by
      simp only [State.step, same]
    have closed : r.readFrom (.givenBack word.position context) =
        r.await (.symbol .semicolon) fun _ r =>
          r.onward (context.resume (.giveBack none (some word.position))) := by
      rw [readFrom_eq_meet]
      refine meet_await ahead same ?_
      rw [step, meetToken_resume]
    rw [closed]
    refine follows_mark.bind fun _ r => ?_
    exact follows_pure rfl
  · have value : r.readFrom (.givenBack word.position context) =
        r.readFrom (.operand .empty (.givenBack word.position context)) :=
      readFrom_otherwise rfl other
    rw [value]
    refine (follows_enter (h .expression _)).bind fun value r => ?_
    refine (follows_close (by rfl)).bind fun _ r => ?_
    exact follows_pure rfl

theorem expression_agrees : Call.expression.Agrees (n + 1) := by
  intro g context
  refine Call.follows_succ fun r => ?_
  refine (follows_enter (h .unary .empty context)).bind fun left r => ?_
  exact follows_enter (h (.operators left) context)

theorem operators_agrees (left : Expr) : (Call.operators left).Agrees (n + 1) := by
  intro g context
  refine Call.follows_succ fun r => ?_
  have stop (stops : ∀ t, r.ahead.head? = some t →
        (State.whole left .empty context).step t = context.resume left t) :
      (pure left : Script Expr).Follows n r (r.readFrom (.whole left .empty context))
        fun e r => r.meet (context.resume e) (State.endOfExpr context e) := by
    refine follows_pure ?_
    rw [readFrom_eq_meet]
    exact meet_congr stops fun _ => rfl
  refine follows_peek readFrom_fails (fun t rest ahead => ?_) fun ahead _ => ?_
  · split <;> rename_i same
    · rename_i s value span
      obtain rfl : t = ⟨.symbol s, value, span⟩ := Option.some.inj same
      rcases found : s.binaryOp? with _ | op
      · refine stop fun u head => ?_
        rw [ahead] at head
        cases head
        simp only [State.step, State.afterOperand, found]
        rfl
      · have step : (State.whole left .empty context).step ⟨.symbol s, value, span⟩ =
            .next (.operand ⟨some (left, op, span.first), []⟩ context) := by
          simp only [State.step, State.afterOperand, found]
          rfl
        rw [readFrom_token ahead step]
        refine follows_take ahead ?_
        refine (follows_enter (h .unary _ _)).bind fun right r => ?_
        -- The next round of the loop has the two sides as its left.
        have whole : r.readFrom (.whole right ⟨some (left, op, span.first), []⟩ context) =
            r.readFrom (.whole (.binary op left right (some span.first)) .empty context) :=
          readFrom_congr (fun _ _ => rfl) fun _ => rfl
        rw [whole]
        exact follows_enter (h (.operators _) _)
    · refine stop fun u head => ?_
      rw [ahead] at head
      cases head
      simp only [State.step, State.afterOperand]
      split
      · rename_i s symbol
        exact absurd (by rw [← symbol]) (same s t.value t.span)
      · rfl
  · refine stop fun u head => ?_
    rw [ahead] at head
    cases head

theorem unary_agrees : Call.unary.Agrees (n + 1) := by
  intro g front context
  refine Call.follows_succ fun r => ?_
  have term (other : ∀ t, r.ahead.head? = some t →
        ¬(t.kind = .symbol .minus ∨ t.kind = .symbol .tilde)) :
      (enter .subscripted).Follows n r (r.readFrom (.operand front context))
        fun e r => r.readFrom (.whole e front context) := by
    have same : r.readFrom (.operand front context) =
        r.meet (State.beginTerm front context) (.error "expression") := by
      rw [readFrom_eq_meet]
      exact meet_congr (fun t head => (if_neg (other t head)).symm) fun _ => rfl
    rw [same]
    exact follows_enter (h .subscripted front context)
  refine follows_kindAhead readFrom_fails (fun t rest ahead => ?_) fun ahead _ => ?_
  · split <;> rename_i same
    · have step : (State.operand front context).step t =
          .next (.operand (front.sign .negate) context) := by
        simp only [State.step, State.beginOperand, Option.some.inj same]
      rw [readFrom_token ahead step]
      refine follows_take ahead ?_
      refine (follows_enter (h .unary _ _)).bind fun e r => ?_
      exact follows_pure (readFrom_congr (fun _ _ => rfl) fun _ => rfl)
    · have step : (State.operand front context).step t =
          .next (.operand (front.sign .not) context) := by
        simp only [State.step, State.beginOperand, Option.some.inj same]
      rw [readFrom_token ahead step]
      refine follows_take ahead ?_
      refine (follows_enter (h .unary _ _)).bind fun e r => ?_
      exact follows_pure (readFrom_congr (fun _ _ => rfl) fun _ => rfl)
    · refine term fun u head => ?_
      rw [ahead] at head
      cases head
      simp_all
  · refine term fun u head => ?_
    rw [ahead] at head
    cases head

theorem subscripted_agrees : Call.subscripted.Agrees (n + 1) := by
  intro g front context
  refine Call.follows_succ fun r => ?_
  refine (follows_enter (h .primary front context)).bind fun target r => ?_
  refine follows_if readFrom_fails (fun t rest ahead same => ?_) fun other _ => ?_
  · have step : (State.primary target front context).step t =
        .next (.operand .empty (.subscript target front context)) := by
      simp only [State.step, State.afterPrimary, same]
    rw [readFrom_token ahead step]
    refine follows_take ahead ?_
    refine (follows_enter (h .expression _)).bind fun subscript r => ?_
    refine (follows_close (by rfl)).bind fun _ r => ?_
    exact follows_pure rfl
  · exact follows_pure (readFrom_otherwise rfl other)

/-- Behind `this`. -/
theorem follows_self {front : Pending} {context : ExprContext g} {r : Reader} (place : Position) :
    (sees (.symbol .dot) >>= fun seen =>
      if seen then enter (.memberCall (.this place))
      else pure (Expr.this (some place))).Follows n r (r.readFrom (.self place front context))
      fun e r => r.readFrom (.primary e front context) := by
  refine follows_if readFrom_fails (fun t rest ahead same => ?_) fun other _ => ?_
  · rw [readFrom_eq_meet]
    refine follows_opened ahead same ?_ (h (.memberCall (.this place)) front context)
    simp only [State.step, same]
  · exact follows_pure (readFrom_otherwise rfl other)

/-- Behind a name. -/
theorem follows_named {front : Pending} {context : ExprContext g} {r : Reader} (name : Token) :
    (sees (.symbol .dot) >>= fun seen =>
      if seen then enter (.memberCall (.named name.value name.position))
      else sees (.symbol .openParen) >>= fun seen =>
        if seen then enter .arguments >>= fun arguments =>
          pure (Expr.call name.value arguments (some name.position))
        else pure (Expr.reference name.value (some name.position))).Follows n r
      (r.readFrom (.named name.value name.position front context))
      fun e r => r.readFrom (.primary e front context) := by
  refine follows_if readFrom_fails (fun t rest ahead same => ?_) fun notDot _ => ?_
  · rw [readFrom_eq_meet]
    refine follows_opened ahead same ?_
      (h (.memberCall (.named name.value name.position)) front context)
    simp only [State.step, same]
  · refine follows_if readFrom_fails (fun t rest ahead same => ?_) fun notParen _ => ?_
    · -- The parenthesis is left to the arguments, whose state waits for it.
      have step : (State.named name.value name.position front context).step t =
          .next (.firstArgument (.own name.value name.position) front context) := by
        simp only [State.step, same]
      have opens : r.readFrom (.openArguments (.own name.value name.position) front context) =
          r.await (.symbol .openParen) fun _ r =>
            r.readFrom (.firstArgument (.own name.value name.position) front context) :=
        readFrom_wait rfl
      rw [readFrom_await (fun _ => .firstArgument (.own name.value name.position) front context)
        ahead same step, ← opens]
      refine (follows_enter (h .arguments _ _ _)).bind fun arguments r => ?_
      exact follows_pure rfl
    · refine follows_pure (readFrom_congr (fun t head => ?_) fun _ => rfl)
      simp only [State.step]
      split <;> rename_i same
      · exact absurd same (notDot t head)
      · exact absurd same (notParen t head)
      · rfl

theorem primary_agrees : Call.primary.Agrees (n + 1) := by
  intro g front context
  refine Call.follows_succ fun r => ?_
  refine follows_kindAhead meet_fails (fun t rest ahead => ?_) fun ahead _ => ?_
  · have word {e : Expr} (begins : State.beginTerm front context t =
          .next (.primary e front context)) :
        (consume >>= fun _ => pure e).Follows n r
          (r.meet (State.beginTerm front context) (.error "expression"))
          fun e r => r.readFrom (.primary e front context) := by
      rw [meet_token ahead, begins]
      refine follows_take ahead ?_
      exact follows_pure rfl
    split <;> rename_i same
    · have same : t.kind = .integerConstant := Option.some.inj same
      refine follows_take ahead ?_
      rcases found : t.constant? with _ | m
      · have begins : State.beginTerm front context t = .refuse (.unexpectedToken
            s!"integer constant in 0..={largestConstant}" t.value (some t.position)) true := by
          simp [State.beginTerm, State.beginOperand, same, found]
        rw [meet_token ahead, begins]
        exact follows_fail _
      · have begins : State.beginTerm front context t =
            .next (.primary (.constant m (some t.position)) front context) := by
          simp [State.beginTerm, State.beginOperand, same, found]
        rw [meet_token ahead, begins]
        exact follows_pure rfl
    · have same : t.kind = .stringConstant := Option.some.inj same
      refine follows_take ahead ?_
      split <;> rename_i fits
      · have begins : State.beginTerm front context t =
            .next (.primary (.string t.value) front context) := by
          simp [State.beginTerm, State.beginOperand, same, fits]
        rw [meet_token ahead, begins]
        exact follows_pure rfl
      · have begins : State.beginTerm front context t = .refuse (.unexpectedToken
            s!"string constant of at most {largestConstant} bytes"
            s!"string constant of {t.value.utf8ByteSize} bytes" (some t.position)) true := by
          simp [State.beginTerm, State.beginOperand, same, fits]
        rw [meet_token ahead, begins]
        exact follows_fail _
    · exact word (by simp [State.beginTerm, State.beginOperand, Option.some.inj same])
    · exact word (by simp [State.beginTerm, State.beginOperand, Option.some.inj same])
    · exact word (by simp [State.beginTerm, State.beginOperand, Option.some.inj same])
    · have begins : State.beginTerm front context t = .next (.self t.position front context) := by
        simp [State.beginTerm, State.beginOperand, Option.some.inj same]
      rw [meet_token ahead, begins]
      refine follows_take ahead ?_
      exact follows_self h t.position
    · have begins : State.beginTerm front context t =
          .next (.operand .empty (.group front context)) := by
        simp [State.beginTerm, State.beginOperand, Option.some.inj same]
      rw [meet_token ahead, begins]
      refine follows_take ahead ?_
      refine (follows_enter (h .expression (.group front context))).bind fun inner r => ?_
      refine (follows_close (by rfl)).bind fun _ r => ?_
      exact follows_pure rfl
    · have same : t.kind = .identifier := Option.some.inj same
      have begins : State.beginTerm front context t =
          .next (.named t.value t.position front context) := by
        simp [State.beginTerm, State.beginOperand, same]
      rw [meet_await_next (fun t => .named t.value t.position front context) ahead same begins]
      refine follows_expect.bind fun name r => ?_
      exact follows_named h name
    · refine follows_refused ahead ?_
      simp only [State.beginTerm]
      split
      · rfl
      · simp only [State.beginOperand]
        split <;> simp_all
  · exact follows_missing ahead

theorem memberCall_agrees (receiver : Receiver) : (Call.memberCall receiver).Agrees (n + 1) := by
  intro g front context
  refine Call.follows_succ fun r => ?_
  refine follows_mark.bind fun _ r => ?_
  refine (follows_wait rfl).bind fun name r => ?_
  refine (follows_enter (h .arguments _ _ _)).bind fun arguments r => ?_
  exact follows_pure rfl

theorem arguments_agrees : Call.arguments.Agrees (n + 1) := by
  intro g callee front context
  refine Call.follows_succ fun r => ?_
  refine (follows_wait_mark rfl).bind fun _ r => ?_
  refine follows_if readFrom_fails (fun t rest ahead same => ?_) fun other _ => ?_
  · have step : (State.firstArgument callee front context).step t =
        .next (.primary (callee.call []) front context) := by
      simp only [State.step, same]
    rw [readFrom_await (fun _ => .primary (callee.call []) front context) ahead same step]
    refine follows_mark.bind fun _ r => ?_
    exact follows_pure rfl
  · have first : r.readFrom (.firstArgument callee front context) =
        r.readFrom (.operand .empty (.argument callee [] front context)) :=
      readFrom_otherwise rfl other
    rw [first]
    refine (follows_enter (h .moreArguments _ _ _ _)).bind fun arguments r => ?_
    refine follows_mark.bind fun _ r => ?_
    exact follows_pure rfl

theorem moreArguments_agrees : Call.moreArguments.Agrees (n + 1) := by
  intro g callee earlier front context
  refine Call.follows_succ fun r => ?_
  refine (follows_enter (h .expression _)).bind fun first r => ?_
  refine follows_if meet_fails (fun t rest ahead same => ?_) fun other _ => ?_
  · have step : (ExprContext.argument callee earlier front context).resume first t =
        .next (.operand .empty (.argument callee (first :: earlier) front context)) := by
      simp only [ExprContext.resume, same]
    rw [meet_token ahead, step]
    refine follows_take ahead ?_
    refine (follows_enter (h .moreArguments callee (first :: earlier) front context)).bind
      fun others r => ?_
    refine follows_pure ?_
    simp only [List.reverse_cons, List.append_assoc, List.singleton_append]
  · refine follows_pure ?_
    rw [← List.reverse_cons]
    refine meet_eq_await (fun t head => ?_) rfl fun t rest =>
      (rfl : r.meetToken t rest (.next _) = Reader.readFrom _ _)
    simp only [ExprContext.resume]
    split <;> rename_i same
    · exact absurd same (other t head)
    · exact (if_pos same).symm
    · exact (if_neg same).symm

end

/-- **What the descent reads is what the states read**, however many calls may be open at a time. -/
theorem Call.agrees (n : Nat) (c : Call) : c.Agrees n := by
  induction n generalizing c with
  | zero =>
    -- Without room no call comes to an end.
    cases c <;> simp only [Agrees] <;> intros <;> intro p out q ended <;> cases ended
  | succ n h =>
    cases c with
    | file => exact file_agrees h
    | classTree => exact classTree_agrees h
    | members => exact members_agrees h
    | member => exact member_agrees h
    | declaration word => exact declaration_agrees h word
    | moreNames => exact moreNames_agrees h
    | typeName withVoid => exact typeName_agrees withVoid
    | routine => exact routine_agrees h
    | parameters => exact parameters_agrees h
    | moreParameters => exact moreParameters_agrees h
    | block => exact block_agrees h
    | statements => exact statements_agrees h
    | statement => exact statement_agrees h
    | letStatement => exact letStatement_agrees h
    | doStatement => exact doStatement_agrees h
    | ifStatement => exact ifStatement_agrees h
    | whileStatement => exact whileStatement_agrees h
    | returnStatement => exact returnStatement_agrees h
    | expression => exact expression_agrees h
    | operators left => exact operators_agrees h left
    | unary => exact unary_agrees h
    | subscripted => exact subscripted_agrees h
    | primary => exact primary_agrees h
    | memberCall receiver => exact memberCall_agrees h receiver
    | arguments => exact arguments_agrees h
    | moreArguments => exact moreArguments_agrees h

end JackCompiler.Descent
