import JackCompiler.Generation.Class
import JackCompiler.Proofs.Execution.Machine
/-!
# What expressions and statements mean

Evaluation of trees, by themselves and without a stack. An expression yields a word and leaves a
memory. A statement completes normally or with a word that the routine gives back. Operands are
evaluated from left to right, a receiver in front of the arguments, and of an assignment to an
element first the value, then the array, then the subscript. A condition holds when it is the word
of all ones.

A name stands for the variable that the scope of its place resolves it to. Scopes follow the text: a
declaration is visible from there on, also behind the end of its block, and however often a loop
goes round, its body is read in the scope in front of it.
-/

namespace JackCompiler

variable (calls : Calls) (className : String)

/-! ### Variables -/

/-- The word that a variable holds. -/
def Memory.get (m : Memory) (v : Variable) : Word :=
  match v.storage with
  | .static => m.store.statics className v.slot
  | .field => m.store.heap (m.object + v.slot)
  | .argument => m.arguments v.slot
  | .local_ => m.locals v.slot

/-- The memory with another word in a variable. -/
def Memory.set (m : Memory) (v : Variable) (w : Word) : Memory :=
  match v.storage with
  | .static => m.setStatic className v.slot w
  | .field => m.setHeap (m.object + v.slot) w
  | .argument => m.setArgument v.slot w
  | .local_ => m.setLocal v.slot w

/-! ### Expressions -/

/-- What an operator makes of two words. Products and quotients are left to the runtime. -/
def BinaryOp.Yields : BinaryOp → Word → Word → Memory → Word → Memory → Prop
  | .add, a, b, m, w, m' => w = a + b ∧ m' = m
  | .subtract, a, b, m, w, m' => w = a - b ∧ m' = m
  | .multiply, a, b, m, w, m' => calls.within "Math.multiply" [a, b] m w m'
  | .divide, a, b, m, w, m' => calls.within "Math.divide" [a, b] m w m'
  | .and, a, b, m, w, m' => w = a &&& b ∧ m' = m
  | .or, a, b, m, w, m' => w = a ||| b ∧ m' = m
  | .less, a, b, m, w, m' => w = truth (precedes a b) ∧ m' = m
  | .greater, a, b, m, w, m' => w = truth (precedes b a) ∧ m' = m
  | .equal, a, b, m, w, m' => w = truth (a = b) ∧ m' = m

/-- What an operator makes of one word. -/
def UnaryOp.value : UnaryOp → Word → Word
  | .negate, a => -a
  | .not, a => ~~~a

/-- Appends bytes to a string that the runtime holds, one call for each. -/
def appendBytes : List UInt8 → Word → Memory → Word → Memory → Prop
  | [], string, m, w, m' => w = string ∧ m' = m
  | byte :: bytes, string, m, w, m' =>
    ∃ string₁ m₁, calls.within "String.appendChar" [string, byte.toUInt16] m string₁ m₁ ∧
      appendBytes bytes string₁ m₁ w m'

/-- Makes a string: an empty one with room for its bytes, and then its bytes. -/
def makeString (value : String) (m : Memory) (w : Word) (m' : Memory) : Prop :=
  ∃ string m₁, calls.within "String.new" [UInt16.ofNat value.utf8ByteSize] m string m₁ ∧
    appendBytes calls (Utf8.bytes value) string m₁ w m'

variable (site : Site)

mutual

/-- The expression yields a word in a memory, and leaves another memory. -/
def Expr.Yields : Expr → Memory → Word → Memory → Prop
  | .constant value _, m, w, m' => w = value ∧ m' = m
  | .boolean value, m, w, m' => w = truth value ∧ m' = m
  | .string value, m, w, m' => makeString calls value m w m'
  | .null, m, w, m' => w = 0 ∧ m' = m
  | .this _, m, w, m' => site.scope.kind.hasReceiver ∧ w = m.object ∧ m' = m
  | .reference name _, m, w, m' =>
    ∃ v, site.scope.resolve name = some v ∧ w = m.get site.className v ∧ m' = m
  | .binary op left right _, m, w, m' =>
    ∃ a m₁ b m₂, left.Yields m a m₁ ∧ right.Yields m₁ b m₂ ∧ op.Yields calls a b m₂ w m'
  | .unary op operand, m, w, m' => ∃ a, operand.Yields m a m' ∧ w = op.value a
  | .call name arguments _, m, w, m' =>
    ∃ ws m₁, yieldAll arguments m ws m₁ ∧
      calls.within (qualified site.className name)
        (if site.scope.kind.hasReceiver then m.object :: ws else ws) m₁ w m'
  | .methodCall (.this _) name arguments _, m, w, m' =>
    site.scope.kind.hasReceiver ∧ ∃ ws m₁, yieldAll arguments m ws m₁ ∧
      calls.within (qualified site.className name) (m.object :: ws) m₁ w m'
  | .methodCall (.reference object _) name arguments _, m, w, m' =>
    ∃ ws m₁, yieldAll arguments m ws m₁ ∧
      match site.scope.resolve object with
      | some v => ¬ isPrimitive v.typeName ∧
          calls.within (qualified v.typeName name) (m.get site.className v :: ws) m₁ w m'
      | none => calls.within (qualified object name) ws m₁ w m'
  | .methodCall _ _ _ _, _, _, _ => False
  | .index target subscript, m, w, m' =>
    ∃ a m₁ i, target.Yields m a m₁ ∧ subscript.Yields m₁ i m' ∧ w = m'.store.heap (a + i)

/-- The expressions yield words, one after the other. -/
def yieldAll : List Expr → Memory → List Word → Memory → Prop
  | [], m, ws, m' => ws = [] ∧ m' = m
  | e :: es, m, ws, m' =>
    ∃ a m₁ as, e.Yields m a m₁ ∧ yieldAll es m₁ as m' ∧ ws = a :: as

end

/-! ### Statements -/

mutual

/-- The scope behind a statement. -/
def Stmt.scopeBehind : Stmt → Scope → Scope
  | .declare d, scope => scope.withLocals d
  | .ifThen _ body, scope => blockScope body scope
  | .ifElse _ body alternative, scope => blockScope alternative (blockScope body scope)
  | .repeatWhile _ body, scope => blockScope body scope
  | .assign .., scope | .assignElement .., scope | .perform .., scope | .giveBack .., scope => scope

/-- The scope behind a block. -/
def blockScope : List Stmt → Scope → Scope
  | [], scope => scope
  | s :: ss, scope => blockScope ss (s.scopeBehind scope)

end

/-- How a statement ends: the routine goes on, or it gives a word back. -/
inductive Completion
  | normal (memory : Memory)
  | returned (word : Word) (memory : Memory)

/-- A loop over a condition and a body: it ends where the condition fails or the body returns. -/
inductive Loop (condition : Memory → Word → Memory → Prop) (body : Memory → Completion → Prop) :
    Memory → Completion → Prop
  | done {m m₁ : Memory} {w : Word} : condition m w m₁ → w ≠ truth true →
      Loop condition body m (.normal m₁)
  | leave {m m₁ m₂ : Memory} {w : Word} : condition m (truth true) m₁ →
      body m₁ (.returned w m₂) → Loop condition body m (.returned w m₂)
  | again {m m₁ m₂ : Memory} {c : Completion} : condition m (truth true) m₁ →
      body m₁ (.normal m₂) → Loop condition body m₂ c → Loop condition body m c

mutual

/-- The statement completes, in a scope and a memory. -/
def Stmt.Completes : Stmt → Scope → Memory → Completion → Prop
  | .declare _, _, m, c => c = .normal m
  | .assign name value _, scope, m, c =>
    ∃ w m₁ v, value.Yields calls ⟨className, scope⟩ m w m₁ ∧ scope.resolve name = some v ∧
      c = .normal (m₁.set className v w)
  | .assignElement name subscript value _, scope, m, c =>
    ∃ w m₁ v i m₂, value.Yields calls ⟨className, scope⟩ m w m₁ ∧ scope.resolve name = some v ∧
      subscript.Yields calls ⟨className, scope⟩ m₁ i m₂ ∧
      c = .normal (m₂.setHeap (m₁.get className v + i) w)
  | .ifThen condition body, scope, m, c =>
    ∃ w m₁, condition.Yields calls ⟨className, scope⟩ m w m₁ ∧
      if w = truth true then blockCompletes body scope m₁ c else c = .normal m₁
  | .ifElse condition body alternative, scope, m, c =>
    ∃ w m₁, condition.Yields calls ⟨className, scope⟩ m w m₁ ∧
      if w = truth true then blockCompletes body scope m₁ c
      else blockCompletes alternative (blockScope body scope) m₁ c
  | .repeatWhile condition body, scope, m, c =>
    Loop (condition.Yields calls ⟨className, scope⟩) (blockCompletes body scope) m c
  | .perform call _, scope, m, c =>
    ∃ w m₁, call.Yields calls ⟨className, scope⟩ m w m₁ ∧ c = .normal m₁
  | .giveBack none _, _, m, c => c = .returned 0 m
  | .giveBack (some value) _, scope, m, c =>
    ∃ w m₁, value.Yields calls ⟨className, scope⟩ m w m₁ ∧ c = .returned w m₁

/-- The block completes: with the first statement that returns, or behind the last. -/
def blockCompletes : List Stmt → Scope → Memory → Completion → Prop
  | [], _, m, c => c = .normal m
  | s :: ss, scope, m, c =>
    (∃ w m₁, s.Completes scope m (.returned w m₁) ∧ c = .returned w m₁) ∨
      ∃ m₁, s.Completes scope m (.normal m₁) ∧ blockCompletes ss (s.scopeBehind scope) m₁ c

end

/-! ### Calls that fit a word -/

mutual

/-- Every call in the expression has fewer than 65535 arguments, so that their number and that of
the receiver fit a word. -/
def Expr.CallsFit : Expr → Prop
  | .binary _ left right _ => left.CallsFit ∧ right.CallsFit
  | .unary _ operand => operand.CallsFit
  | .call _ arguments _ => arguments.length < 65535 ∧ allCallsFit arguments
  | .methodCall receiver _ arguments _ =>
    receiver.CallsFit ∧ arguments.length < 65535 ∧ allCallsFit arguments
  | .index target subscript => target.CallsFit ∧ subscript.CallsFit
  | .constant .. | .boolean _ | .string _ | .null | .this _ | .reference .. => True

/-- Every call in the expressions fits. -/
def allCallsFit : List Expr → Prop
  | [] => True
  | e :: es => e.CallsFit ∧ allCallsFit es

end

mutual

/-- Every call in the statement fits. -/
def Stmt.CallsFit : Stmt → Prop
  | .declare _ | .giveBack none _ => True
  | .assign _ value _ => value.CallsFit
  | .assignElement _ subscript value _ => value.CallsFit ∧ subscript.CallsFit
  | .ifThen condition body => condition.CallsFit ∧ blockCallsFit body
  | .ifElse condition body alternative =>
    condition.CallsFit ∧ blockCallsFit body ∧ blockCallsFit alternative
  | .repeatWhile condition body => condition.CallsFit ∧ blockCallsFit body
  | .perform call _ => call.CallsFit
  | .giveBack (some value) _ => value.CallsFit

/-- Every call in the block fits. -/
def blockCallsFit : List Stmt → Prop
  | [] => True
  | s :: ss => s.CallsFit ∧ blockCallsFit ss

end

end JackCompiler
