import JackCompiler.Generation.Statement
import JackCompiler.Stack.Chunk
/-!
# Instructions for classes

The statics and fields of a class are declared first, wherever they stand among the routines. Each
routine is generated by itself, behind a directive with the number of its locals, which its body
settles. A generator keeps the routines it has finished until a class succeeds.
-/

namespace JackCompiler

/-- The variables of a class. -/
def ClassTree.table (c : ClassTree) : Table :=
  c.members.foldl (fun t m =>
    match m with
    | .shared d => t.declare .static d.type.name d.names
    | .perObject d => t.declare .field d.type.name d.names
    | .routine _ => t) .empty

/-- What a routine does before its body: a method finds its object in argument 0, a constructor
makes one with room for the fields. -/
def RoutineKind.prologue (kind : RoutineKind) (fieldCount : UInt16) : List Instruction :=
  match kind with
  | function => []
  | method => [.push .arguments 0, .pop .pointer 0]
  | constructor => [pushConstant fieldCount, .call "Memory.alloc" 1, .pop .pointer 0]

/-- The instructions of a routine. -/
def Routine.code (className : String) (table : Table) (r : Routine) :
    Generated (List Instruction) := do
  let scope := (Scope.enter r.kind table).withParameters r.parameters
  let (body, f) ← blockCode className r.body ⟨scope, 0⟩
  return .function (qualified className r.name) f.scope.localCount ::
    r.kind.prologue (table.count .field) ++ body

/-- The routines that are finished and not yet handed out, last first. -/
structure Generator where
  finished : List (List Instruction)
  deriving DecidableEq, Repr

namespace Generator

/-- A generator with nothing finished. -/
def fresh : Generator := ⟨[]⟩

/-- Finishes routines up to the first that is refused. -/
def finishRoutines (className : String) (table : Table) :
    Generator → List Routine → Generator × Option CompileError
  | g, [] => (g, none)
  | g, r :: rs =>
    match r.code className table with
    | .ok code => finishRoutines className table ⟨code :: g.finished⟩ rs
    | .error e => (g, some e)

/-- The chunk of a class, behind routines left from before, and the generator afterwards. -/
def generate (g : Generator) (c : ClassTree) : Generated Chunk × Generator :=
  match finishRoutines c.name c.table g c.routines with
  | (g, none) => (.ok ⟨g.finished.reverse.flatten⟩, fresh)
  | (g, some e) => (.error e, g)

end Generator

/-- The chunk of a class. -/
def ClassTree.chunk (c : ClassTree) : Generated Chunk := (Generator.fresh.generate c).1

end JackCompiler
