import JackCompiler.Generation.Class
import Mathlib.Data.List.Infix
/-!
# What code is put together from

The code of an expression is put together from a few kinds of pieces: a push, an operation, a call,
and the selection of an element with the push behind it. So a property of code holds of all
expressions if the pieces have it and it passes to code put together, and likewise for statements,
whose pieces are a few more.

        pieces with the property  ──one behind the other──▶  code with the property
-/

namespace JackCompiler

/-- Generation goes on with the value of its first part. -/
theorem generated_bind {α β : Type} {x : Generated α} {f : α → Generated β} {b : β} :
    (x >>= f) = .ok b ↔ ∃ a, x = .ok a ∧ f a = .ok b := by
  cases x with
  | ok a => exact ⟨fun h => ⟨a, rfl, h⟩, fun ⟨_, ha, h⟩ => by cases ha; exact h⟩
  | error e => exact ⟨(nomatch ·), fun ⟨_, ha, _⟩ => nomatch ha⟩

/-- A function has no object, and a site that has one pushes it. -/
theorem Site.receiver_eq_ok {site : Site} {position : Option Position} {i : Instruction} :
    site.receiver position = .ok i ↔ site.scope.kind.hasReceiver ∧ pushObject = i := by
  unfold Site.receiver
  split
  · next h => exact ⟨fun hi => ⟨h, Except.ok.inj hi⟩, fun hi => congrArg _ hi.2⟩
  · next h => exact ⟨(nomatch ·), fun hi => absurd hi.1 h⟩

theorem Site.lookup_eq_ok {site : Site} {name : String} {position : Option Position}
    {v : Variable} : site.lookup name position = .ok v ↔ site.scope.resolve name = some v := by
  unfold Site.lookup
  split
  · next u h => rw [h]; exact ⟨fun hv => congrArg _ (Except.ok.inj hv), fun hv => by cases hv; rfl⟩
  · next h => rw [h]; exact ⟨(nomatch ·), (nomatch ·)⟩

/-! ### Expressions -/

/-- A property that the pieces of an expression have, and that passes to code put together. -/
structure Site.Assembles (site : Site) (Q : List Instruction → Prop) : Prop where
  nil : Q []
  append : ∀ {a b}, Q a → Q b → Q (a ++ b)
  constant : ∀ n, Q [pushConstant n]
  operation : ∀ o, Q [.operate o]
  call : ∀ name arity, Q [.call name arity]
  object : site.scope.kind.hasReceiver → Q [pushObject]
  variable_ : ∀ {name v}, site.scope.resolve name = some v → Q [v.push]
  element : Q (selectElement ++ [.push .that 0])

namespace Site.Assembles

variable {site : Site} {Q : List Instruction → Prop} (q : site.Assembles Q)

include q

theorem binary (op : BinaryOp) : Q [op.instruction] := by
  cases op with
  | multiply => exact q.call _ _
  | divide => exact q.call _ _
  | _ => exact q.operation _

theorem unary (op : UnaryOp) : Q [op.instruction] := by
  cases op <;> exact q.operation _

theorem string {value : String} {code : List Instruction} (h : stringCode value = .ok code) :
    Q code := by
  unfold stringCode at h
  split at h
  · cases h
    have bytes (w : List UInt8) : Q (w.flatMap fun byte =>
        [pushConstant byte.toUInt16, .call "String.appendChar" 2]) := by
      induction w with
      | nil => exact q.nil
      | cons byte w ih => exact q.append (q.append (q.constant _) (q.call _ _)) ih
    exact q.append (q.constant _) (q.append (q.call _ _) (bytes _))
  · cases h

end Site.Assembles

mutual

/-- What passes from the pieces holds of the code of every expression. -/
theorem Expr.code_assembles {site : Site} {Q : List Instruction → Prop} (q : site.Assembles Q) :
    ∀ {e : Expr} {code : List Instruction}, e.code site = .ok code → Q code
  | .constant .., _, h | .null, _, h | .boolean false, _, h => by
    cases h
    exact q.constant _
  | .boolean true, _, h => by
    cases h
    exact q.append (q.constant _) (q.operation _)
  | .string value, _, h => q.string h
  | .this _, _, h => by
    obtain ⟨i, hi, h⟩ := generated_bind.1 h
    obtain ⟨object, rfl⟩ := Site.receiver_eq_ok.1 hi
    cases h
    exact q.object object
  | .reference .., _, h => by
    obtain ⟨v, hv, h⟩ := generated_bind.1 h
    cases h
    exact q.variable_ (Site.lookup_eq_ok.1 hv)
  | .binary op left right _, _, h => by
    obtain ⟨a, ha, h⟩ := generated_bind.1 h
    obtain ⟨b, hb, h⟩ := generated_bind.1 h
    cases h
    exact q.append (q.append (Expr.code_assembles q ha) (Expr.code_assembles q hb)) (q.binary op)
  | .unary op operand, _, h => by
    obtain ⟨a, ha, h⟩ := generated_bind.1 h
    cases h
    exact q.append (Expr.code_assembles q ha) (q.unary op)
  | .call name arguments _, _, h => by
    obtain ⟨a, ha, h⟩ := generated_bind.1 h
    have pushed := argumentsCode_assembles q ha
    split at h
    · next object =>
      cases h
      exact q.append (q.append (q.object object) pushed) (q.call _ _)
    · cases h
      exact q.append pushed (q.call _ _)
  | .methodCall (.this _) name arguments _, _, h => by
    obtain ⟨i, hi, h⟩ := generated_bind.1 h
    obtain ⟨object, rfl⟩ := Site.receiver_eq_ok.1 hi
    obtain ⟨a, ha, h⟩ := generated_bind.1 h
    cases h
    exact q.append (q.append (q.object object) (argumentsCode_assembles q ha)) (q.call _ _)
  | .methodCall (.reference object _) name arguments _, _, h => by
    simp only [Expr.code] at h
    split at h
    · next v hv =>
      split at h
      · cases h
      · obtain ⟨a, ha, h⟩ := generated_bind.1 h
        cases h
        exact q.append (q.append (q.variable_ hv) (argumentsCode_assembles q ha)) (q.call _ _)
    · obtain ⟨a, ha, h⟩ := generated_bind.1 h
      cases h
      exact q.append (argumentsCode_assembles q ha) (q.call _ _)
  | .index target subscript, _, h => by
    obtain ⟨a, ha, h⟩ := generated_bind.1 h
    obtain ⟨b, hb, h⟩ := generated_bind.1 h
    cases h
    rw [List.append_assoc]
    exact q.append (q.append (Expr.code_assembles q ha) (Expr.code_assembles q hb)) q.element

/-- What passes from the pieces holds of the code of arguments. -/
theorem argumentsCode_assembles {site : Site} {Q : List Instruction → Prop}
    (q : site.Assembles Q) : ∀ {es : List Expr} {code : List Instruction},
    argumentsCode site es = .ok code → Q code
  | [], _, h => by
    cases h
    exact q.nil
  | e :: es, _, h => by
    obtain ⟨a, ha, h⟩ := generated_bind.1 h
    obtain ⟨b, hb, h⟩ := generated_bind.1 h
    cases h
    exact q.append (Expr.code_assembles q ha) (argumentsCode_assembles q hb)

end

/-! ### Statements -/

/-- A property that the pieces of statements have, in the scopes that are admitted, and that passes
to code put together. In front of a declaration a scope is admitted if it is behind. -/
structure Assembles (className : String) (S : Scope → Prop) (Q : List Instruction → Prop) :
    Prop where
  declared : ∀ {scope d}, S (Scope.withLocals scope d) → S scope
  expressions : ∀ {scope}, S scope → Site.Assembles ⟨className, scope⟩ Q
  assigned : ∀ {scope name v}, S scope → scope.resolve name = some v → Q [v.pop]
  assignedElement : Q (selectElement ++ [.pop .that 0])
  dropped : Q [.pop .temp 0]
  label : ∀ name, Q [.label name]
  goto : ∀ name, Q [.goto name]
  ifGoto : ∀ name, Q [.ifGoto name]
  giveBack : Q [.giveBack]

variable {className : String} {S : Scope → Prop} {Q : List Instruction → Prop}

/-- A condition and the jump behind it. -/
theorem Assembles.test (q : Assembles className S Q) {scope : Scope} (admitted : S scope)
    {condition : Expr} {a : List Instruction} (ha : condition.code ⟨className, scope⟩ = .ok a)
    (label : String) : Q (a ++ unlessGoto label) := by
  have pieces := q.expressions admitted
  exact pieces.append (Expr.code_assembles pieces ha)
    (pieces.append (pieces.operation .not) (q.ifGoto label))

mutual

/-- What passes from the pieces holds of the code of every statement. -/
theorem Stmt.code_assembles (q : Assembles className S Q) :
    ∀ {s : Stmt} {f f' : Frame} {code : List Instruction},
    s.code className f = .ok (code, f') → S f'.scope → S f.scope ∧ Q code
  | .declare d, f, _, _, h, admitted => by
    cases h
    exact ⟨q.declared admitted, (q.expressions admitted).nil⟩
  | .assign name value position, f, _, _, h, admitted => by
    obtain ⟨a, ha, h⟩ := generated_bind.1 h
    obtain ⟨v, hv, h⟩ := generated_bind.1 h
    cases h
    have pieces := q.expressions admitted
    exact ⟨admitted, pieces.append (Expr.code_assembles pieces ha)
      (q.assigned admitted (Site.lookup_eq_ok.1 hv))⟩
  | .assignElement name subscript value position, f, _, _, h, admitted => by
    obtain ⟨a, ha, h⟩ := generated_bind.1 h
    obtain ⟨v, hv, h⟩ := generated_bind.1 h
    obtain ⟨b, hb, h⟩ := generated_bind.1 h
    cases h
    have pieces := q.expressions admitted
    have array := pieces.variable_ (Site.lookup_eq_ok.1 hv)
    have address := pieces.append array (Expr.code_assembles pieces hb)
    rw [List.append_assoc]
    exact ⟨admitted, pieces.append
      (pieces.append (Expr.code_assembles pieces ha) address) q.assignedElement⟩
  | .ifThen condition body, f, _, _, h, admitted => by
    obtain ⟨a, ha, h⟩ := generated_bind.1 h
    obtain ⟨⟨b, f₁⟩, hb, h⟩ := generated_bind.1 h
    cases h
    obtain ⟨before, body⟩ := blockCode_assembles q hb admitted
    have pieces := q.expressions before
    exact ⟨before, pieces.append (pieces.append (q.test before ha _) body) (q.label _)⟩
  | .ifElse condition body alternative, f, _, _, h, admitted => by
    obtain ⟨a, ha, h⟩ := generated_bind.1 h
    obtain ⟨⟨b, f₁⟩, hb, h⟩ := generated_bind.1 h
    obtain ⟨⟨c, f₂⟩, hc, h⟩ := generated_bind.1 h
    cases h
    obtain ⟨between, alternative⟩ := blockCode_assembles q hc admitted
    obtain ⟨before, body⟩ := blockCode_assembles q hb between
    have pieces := q.expressions before
    have passed := pieces.append (q.goto (doneLabel f.nextLabel)) (q.label (elseLabel f.nextLabel))
    exact ⟨before, pieces.append (pieces.append (pieces.append (q.test before ha _) body)
      (pieces.append passed alternative)) (q.label _)⟩
  | .repeatWhile condition body, f, _, _, h, admitted => by
    obtain ⟨a, ha, h⟩ := generated_bind.1 h
    obtain ⟨⟨b, f₁⟩, hb, h⟩ := generated_bind.1 h
    cases h
    obtain ⟨before, body⟩ := blockCode_assembles q hb admitted
    have pieces := q.expressions before
    have again := pieces.append (q.goto (startLabel f.nextLabel)) (q.label (endLabel f.nextLabel))
    have test := pieces.append (q.label (startLabel f.nextLabel))
      (q.test before ha (endLabel f.nextLabel))
    exact ⟨before, pieces.append (pieces.append test body) again⟩
  | .perform call position, f, _, _, h, admitted => by
    obtain ⟨a, ha, h⟩ := generated_bind.1 h
    cases h
    have pieces := q.expressions admitted
    exact ⟨admitted, pieces.append (Expr.code_assembles pieces ha) q.dropped⟩
  | .giveBack none position, f, _, _, h, admitted => by
    cases h
    have pieces := q.expressions admitted
    exact ⟨admitted, pieces.append (pieces.constant 0) q.giveBack⟩
  | .giveBack (some value) position, f, _, _, h, admitted => by
    obtain ⟨a, ha, h⟩ := generated_bind.1 h
    cases h
    have pieces := q.expressions admitted
    exact ⟨admitted, pieces.append (Expr.code_assembles pieces ha) q.giveBack⟩

/-- What passes from the pieces holds of the code of every block. -/
theorem blockCode_assembles (q : Assembles className S Q) :
    ∀ {ss : List Stmt} {f f' : Frame} {code : List Instruction},
    blockCode className ss f = .ok (code, f') → S f'.scope → S f.scope ∧ Q code
  | [], f, _, _, h, admitted => by
    cases h
    exact ⟨admitted, (q.expressions admitted).nil⟩
  | s :: ss, f, _, _, h, admitted => by
    obtain ⟨⟨a, f₁⟩, ha, h⟩ := generated_bind.1 h
    obtain ⟨⟨b, f₂⟩, hb, h⟩ := generated_bind.1 h
    cases h
    obtain ⟨between, second⟩ := blockCode_assembles q hb admitted
    obtain ⟨before, first⟩ := Stmt.code_assembles q ha between
    exact ⟨before, (q.expressions before).append first second⟩

end

end JackCompiler
