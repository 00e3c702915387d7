import JackCompiler.Names.Table
import JackCompiler.Syntax.Tree
/-!
# The scope of a routine

A name inside a routine is looked up among its locals, its arguments, the fields of its object and
the statics of its class, in this order. A function has no object, so it sees no fields. A method
finds its object in argument 0, which no parameter can take.
-/

namespace JackCompiler

/-- The names that a routine sees: those of its class and its own. -/
structure Scope where
  kind : RoutineKind
  owner : Table
  own : Table
  deriving DecidableEq, Repr

namespace Scope

/-- The scope of a routine before its parameters. -/
def enter (kind : RoutineKind) (owner : Table) : Scope :=
  ⟨kind, owner, if kind = .method then (Table.empty.reserve .argument).2 else .empty⟩

/-- Declares a parameter. -/
def defineArgument (s : Scope) (name typeName : String) : Variable × Scope :=
  let (v, own) := s.own.define name .argument typeName
  (v, { s with own := own })

/-- Declares a local. -/
def defineLocal (s : Scope) (name typeName : String) : Variable × Scope :=
  let (v, own) := s.own.define name .local_ typeName
  (v, { s with own := own })

/-- The number of locals declared so far. -/
def localCount (s : Scope) : UInt16 := s.own.count .local_

/-- The variable that a name stands for. -/
def resolve (s : Scope) (name : String) : Option Variable :=
  (s.own.get? name .local_).or <|
    (s.own.get? name .argument).or <|
      (if s.kind.hasReceiver then s.owner.get? name .field else none).or <|
        s.owner.get? name .static

/-- Declares the parameters of a routine. -/
def withParameters (s : Scope) (parameters : List Parameter) : Scope :=
  parameters.foldl (fun s p => (s.defineArgument p.name p.type.name).2) s

/-- Declares locals together. -/
def withLocals (s : Scope) (d : Declaration) : Scope :=
  d.names.foldl (fun s name => (s.defineLocal name d.type.name).2) s

end Scope

end JackCompiler
