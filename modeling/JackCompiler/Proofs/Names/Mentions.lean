import JackCompiler.Generation.Expression
import JackCompiler.Proofs.Names.Declarations
/-!
# What a body mentions

The places where a body uses a name or its object, in the order in which code is made for them: of
an assignment the value and then the name, of an assignment to an element the name between value and
subscript, a receiver in front of the arguments. With each go the locals declared in front of it, at
whatever depth. These say what the name stands for there.

        var int i;   let a[i] = x;   do p.move(i);
                     x, then a, then i             p, then i           each with i declared
-/

namespace JackCompiler

/-- How a body uses a name. -/
inductive Use
  | read
  | assigned
  /-- The array of an assignment to an element. -/
  | array
  | receiver
  /-- The object that the routine works on. -/
  | this
  deriving DecidableEq, Repr

namespace Use

/-- Whether the value of the variable is pushed. -/
def reads : Use → Bool
  | read | array | receiver => true
  | assigned | this => false

end Use

/-- A place where a body uses a name, with the locals declared in front of it and their types. -/
structure Mention where
  use : Use
  name : String
  position : Option Position
  declared : List (String × String)
  deriving DecidableEq, Repr

variable (declared : List (String × String))

mutual

/-- What an expression mentions, behind the locals declared in front of it. -/
def Expr.mentions : Expr → List Mention
  | .constant .. | .boolean _ | .string _ | .null => []
  | .this position => [⟨.this, "this", position, declared⟩]
  | .reference name position => [⟨.read, name, position, declared⟩]
  | .binary _ left right _ => left.mentions ++ right.mentions
  | .unary _ operand => operand.mentions
  | .call _ arguments _ => allMentions arguments
  | .methodCall (.reference name position) _ arguments _ =>
    ⟨.receiver, name, position, declared⟩ :: allMentions arguments
  | .methodCall receiver _ arguments _ => receiver.mentions ++ allMentions arguments
  | .index target subscript => target.mentions ++ subscript.mentions

/-- What expressions mention, one after the other. -/
def allMentions : List Expr → List Mention
  | [] => []
  | e :: es => e.mentions ++ allMentions es

end

mutual

/-- What a statement mentions, behind the locals declared in front of it. -/
def Stmt.mentions (declared : List (String × String)) : Stmt → List Mention
  | .declare _ | .giveBack none _ => []
  | .assign name value position =>
    value.mentions declared ++ [⟨.assigned, name, position, declared⟩]
  | .assignElement name subscript value position =>
    value.mentions declared ++ ⟨.array, name, position, declared⟩ :: subscript.mentions declared
  | .ifThen condition body => condition.mentions declared ++ blockMentions declared body
  | .ifElse condition body alternative =>
    condition.mentions declared ++ blockMentions declared body ++
      blockMentions (declared ++ blockLocals body) alternative
  | .repeatWhile condition body => condition.mentions declared ++ blockMentions declared body
  | .perform call _ => call.mentions declared
  | .giveBack (some value) _ => value.mentions declared

/-- What a block mentions: each statement behind the locals that those in front of it declare. -/
def blockMentions (declared : List (String × String)) : List Stmt → List Mention
  | [] => []
  | s :: ss => s.mentions declared ++ blockMentions (declared ++ s.locals) ss

end

/-- What the body of a routine mentions. -/
def Routine.mentions (r : Routine) : List Mention := blockMentions [] r.body

/-! ### Mentions in a scope -/

namespace Mention

variable (base : Scope) (m : Mention)

/-- What the name stands for, in a routine with this scope in front of its body. -/
def resolved : Option Variable := (base.defineLocals m.declared).resolve m.name

/-- Whether code can be made for it. A receiver may stand for nothing: then it is a class. -/
def Allowed : Prop :=
  match m.use with
  | .read | .assigned | .array => m.resolved base ≠ none
  | .receiver => ∀ v, m.resolved base = some v → ¬ isPrimitive v.typeName
  | .this => base.kind.hasReceiver

/-- The instruction that uses the variable. -/
def access : Option Instruction :=
  match m.use with
  | .read | .array | .receiver => (m.resolved base).map Variable.push
  | .assigned => (m.resolved base).map Variable.pop
  | .this => none

variable {base m}

/-- A variable that is read is pushed. -/
theorem access_reads (h : m.use.reads) : m.access base = (m.resolved base).map Variable.push := by
  obtain ⟨use, name, position, declared⟩ := m
  cases use <;> first | rfl | cases h

end Mention

end JackCompiler
