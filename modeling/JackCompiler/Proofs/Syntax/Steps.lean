import JackCompiler.Syntax.Parse
/-!
# Steps through a class

What a step can do while a class is read: it goes on, or it refuses the token with a parse error
about the place of that token. It never completes a tree, as a class is complete only where the text
ends. So a run is told by the states it passes, and ends in the first refusal, in the error behind
the tokens, or at their end.

        state ──t──▶ state ──t──▶ … ──▶ state     no token left: the error behind, or the end
                       └─▶ refused                 parse error at the place of the token
-/

namespace JackCompiler

/-! ### What a step can do -/

/-- The outcome goes on, or is a parse error about the place of the token. -/
def Outcome.Blames (t : Token) : Outcome .class_ → Prop
  | .next _ => True
  | .complete _ _ => False
  | .refuse e _ => e.kind = .parse ∧ e.position = some t.position

theorem StmtContext.resume_blames (context : StmtContext .class_) (s : Stmt) (t : Token) :
    (context.resume s).Blames t := by
  cases context
  trivial

theorem BlockContext.resume_blames (context : BlockContext .class_) (ss : List Stmt) (t : Token) :
    (context.resume ss).Blames t := by
  cases context with
  | body => trivial
  | consequent => trivial
  | alternative => exact StmtContext.resume_blames ..
  | loop => exact StmtContext.resume_blames ..

theorem DeclarationContext.resume_blames (context : DeclarationContext .class_) (d : Declaration)
    (t : Token) : (context.resume d).Blames t := by
  cases context with
  | shared => trivial
  | perObject => trivial
  | inRoutine => exact StmtContext.resume_blames ..

theorem ExprContext.resume_blames (context : ExprContext .class_) (e : Expr) (t : Token) :
    (context.resume e t).Blames t := by
  cases context <;> simp only [ExprContext.resume] <;> split <;> first
    | trivial
    | exact StmtContext.resume_blames ..

namespace State

theorem afterOperand_blames (e : Expr) (front : Pending) (context : ExprContext .class_)
    (t : Token) : (afterOperand e front context t).Blames t := by
  unfold afterOperand
  split
  · split
    · trivial
    · exact context.resume_blames ..
  · exact context.resume_blames ..

theorem afterPrimary_blames (e : Expr) (front : Pending) (context : ExprContext .class_)
    (t : Token) : (afterPrimary e front context t).Blames t := by
  unfold afterPrimary
  split
  · trivial
  · exact afterOperand_blames ..

theorem beginOperand_blames (front : Pending) (context : ExprContext .class_) (t : Token) :
    (beginOperand front context t).Blames t := by
  unfold beginOperand
  split <;> first | trivial | (split <;> trivial)

theorem beginStatement_blames (context : StmtContext .class_) (t : Token) :
    (beginStatement context t).Blames t := by
  unfold beginStatement
  split <;> trivial

theorem inBlock_blames (earlier : List Stmt) (context : BlockContext .class_) (t : Token) :
    (inBlock earlier context t).Blames t := by
  unfold inBlock
  split
  · exact context.resume_blames ..
  · exact beginStatement_blames ..

theorem afterStatement_blames (s : Stmt) (context : StmtContext .class_) (t : Token) :
    (afterStatement s context t).Blames t := by
  cases context
  exact inBlock_blames ..

theorem inClass_blames (owner : OpenClass) (t : Token) : (inClass owner t).Blames t := by
  unfold inClass
  split <;> first | trivial | (split <;> trivial)

theorem beginParameter_blames (routine : OpenRoutine) (t : Token) :
    (beginParameter routine t).Blames t := by
  unfold beginParameter
  split <;> trivial

/-- **A step goes on or blames its token.** -/
theorem step_blames (s : State .class_) (t : Token) : (s.step t).Blames t := by
  cases s <;> simp only [step]
  case operand => exact beginOperand_blames ..
  case primary => exact afterPrimary_blames ..
  case whole => exact afterOperand_blames ..
  case statement => exact beginStatement_blames ..
  case block => exact inBlock_blames ..
  case members => exact inClass_blames ..
  case parameterType => exact beginParameter_blames ..
  case classDone => exact ⟨rfl, rfl⟩
  all_goals
    split <;> first
      | trivial
      | exact ⟨rfl, rfl⟩
      | exact afterPrimary_blames ..
      | exact beginOperand_blames ..
      | exact StmtContext.resume_blames ..
      | exact DeclarationContext.resume_blames ..
      | exact afterStatement_blames ..
      | exact beginParameter_blames ..

/-! ### Runs -/

/-- The state behind tokens, if none of them is refused. -/
def after : State .class_ → List Token → Option (State .class_)
  | s, [] => some s
  | s, t :: ts =>
    match s.step t with
    | .next s' => s'.after ts
    | _ => none

theorem after_cons {s s' : State .class_} {t : Token} (h : s.step t = .next s') (ts : List Token) :
    s.after (t :: ts) = s'.after ts := by
  rw [after, h]

theorem after_refused {s : State .class_} {t : Token} {e : CompileError} {taken : Bool}
    (h : s.step t = .refuse e taken) (ts : List Token) : s.after (t :: ts) = none := by
  rw [after, h]

/-- A step goes on, or the error that it refuses its token with is a parse error about that. -/
theorem step_cases (s : State .class_) (t : Token) :
    (∃ s', s.step t = .next s') ∨
      ∃ e taken, s.step t = .refuse e taken ∧ e.kind = .parse ∧ e.position = some t.position := by
  have blames := s.step_blames t
  cases h : s.step t with
  | next s' => exact .inl ⟨s', rfl⟩
  | complete tree taken => rw [h] at blames; exact blames.elim
  | refuse e taken => rw [h] at blames; exact .inr ⟨e, taken, rfl, blames⟩

theorem after_append (s : State .class_) (ts us : List Token) :
    s.after (ts ++ us) = (s.after ts).bind (·.after us) := by
  induction ts generalizing s with
  | nil => rfl
  | cons t ts ih =>
    rcases s.step_cases t with ⟨s', h⟩ | ⟨e, taken, h, -⟩
    · rw [List.cons_append, after_cons h, after_cons h, ih]
    · rw [List.cons_append, after_refused h, after_refused h]
      rfl

/-- The last byte of tokens, and of what stands in front of them if there are none. -/
def lastByte (ts : List Token) (last : Position) : Position :=
  (ts.getLast?.map (·.span.last)).getD last

theorem lastByte_cons (t : Token) (ts : List Token) (last : Position) :
    lastByte (t :: ts) last = lastByte ts t.span.last := by
  cases ts with
  | nil => rfl
  | cons u ts => rw [lastByte, lastByte, List.getLast?_cons_cons, List.getLast?_cons]; rfl

/-- A run passes the tokens that are not refused. -/
theorem run_of_after {s s' : State .class_} {ts : List Token} (h : s.after ts = some s')
    (failure : Option CompileError) (last : Position) :
    s.run failure ts last = s'.run failure [] (lastByte ts last) := by
  induction ts generalizing s last with
  | nil =>
    cases h
    rfl
  | cons t ts ih =>
    rcases s.step_cases t with ⟨u, hu⟩ | ⟨e, taken, hu, -⟩
    · rw [after_cons hu] at h
      rw [run, hu, lastByte_cons]
      exact ih h _
    · rw [after_refused hu] at h
      cases h

/-- A run that does not pass all tokens ends with an error about the first that is refused. -/
theorem run_refused {s : State .class_} {ts : List Token} (h : s.after ts = none)
    (failure : Option CompileError) (last : Position) :
    ∃ before t behind e, ts = before ++ t :: behind ∧ (∃ s', s.after before = some s') ∧
      s.after (before ++ [t]) = none ∧ (s.run failure ts last).1 = .error e ∧
      e.kind = .parse ∧ e.position = some t.position := by
  induction ts generalizing s last with
  | nil => cases h
  | cons t ts ih =>
    rcases s.step_cases t with ⟨u, hu⟩ | ⟨e, taken, hu, kind, position⟩
    · rw [after_cons hu] at h
      obtain ⟨before, t', behind, e, rfl, ⟨s', passed⟩, refused, run, kind, position⟩ :=
        ih h t.span.last
      refine ⟨t :: before, t', behind, e, rfl, ⟨s', ?_⟩, ?_, ?_, kind, position⟩
      · rw [after_cons hu, passed]
      · rw [List.cons_append, after_cons hu, refused]
      · rw [State.run, hu]
        exact run
    · refine ⟨[], t, ts, e, rfl, ⟨s, rfl⟩, after_refused hu [], ?_, kind, position⟩
      rw [State.run, hu]
      cases taken <;> rfl

theorem endOfExpr_class (context : ExprContext .class_) (e : Expr) :
    endOfExpr context e = .error (TokenKind.symbol context.closer).describe := by
  cases context <;> rfl

/-- The end of the text completes a class only behind its last brace. -/
theorem atEnd_eq_ok {s : State .class_} {tree : ClassTree} :
    s.atEnd = .ok tree ↔ s = .classDone tree := by
  constructor
  · intro h
    cases s <;> simp only [atEnd, endOfExpr_class] at h
    case classDone => cases h; rfl
    case consequentDone condition body context =>
      cases context
      cases h
    all_goals cases h
  · rintro rfl
    rfl

/-- A run gives a tree exactly if it passes all tokens, to the state behind that class. -/
theorem run_eq_ok {s : State .class_} {ts : List Token} {last : Position} {tree : ClassTree} :
    (s.run none ts last).1 = .ok tree ↔ s.after ts = some (.classDone tree) := by
  constructor
  · intro h
    cases passed : s.after ts with
    | none =>
      obtain ⟨_, _, _, e, -, -, -, run, -⟩ := run_refused passed none last
      rw [run] at h
      cases h
    | some s' =>
      rw [run_of_after passed, run] at h
      split at h
      · next tree' ended =>
        cases h
        rw [atEnd_eq_ok.1 ended]
      · cases h
  · intro h
    rw [run_of_after h]
    rfl

end State

end JackCompiler
