import JackCompiler.Stack.Instruction
/-!
# Variables and their slots

A variable is stored as a static of its class, a field of an object, an argument or a local of a
routine. Each kind of storage hands out its slots in order. A slot can also be taken without a name.
A name that has a slot keeps it, whatever type it is declared with again.
-/

namespace JackCompiler

/-- How a variable is stored. -/
inductive Storage
  | static
  | field
  | argument
  | local_
  deriving DecidableEq, Repr

namespace Storage

/-- The segment of a kind of storage. -/
def segment : Storage → Segment
  | static => .statics
  | field => .this
  | argument => .arguments
  | local_ => .locals

/-- The name of a kind of storage. -/
def text : Storage → String
  | static => "static"
  | field => "field"
  | argument => "argument"
  | local_ => "local"

end Storage

/-- A variable with its slot and the name of its type. -/
structure Variable where
  name : String
  storage : Storage
  slot : UInt16
  typeName : String
  deriving DecidableEq, Repr

namespace Variable

/-- Pushes the value of a variable. -/
def push (v : Variable) : Instruction := .push v.storage.segment v.slot

/-- Pops a value into a variable. -/
def pop (v : Variable) : Instruction := .pop v.storage.segment v.slot

end Variable

/-- The slots of one kind of storage: the variables, last first, and the number of slots taken. -/
structure Slots where
  named : List Variable
  taken : UInt16
  deriving DecidableEq, Repr

namespace Slots

/-- No slot taken. -/
def empty : Slots := ⟨[], 0⟩

/-- The variable of a name. -/
def get? (s : Slots) (name : String) : Option Variable := s.named.find? (·.name = name)

/-- Takes a slot for nobody. -/
def reserve (s : Slots) : UInt16 × Slots := (s.taken, { s with taken := s.taken + 1 })

/-- The variable of a name, which takes the next slot if it has none. -/
def define (s : Slots) (storage : Storage) (name typeName : String) : Variable × Slots :=
  match s.get? name with
  | some v => (v, s)
  | none =>
    let v := ⟨name, storage, s.taken, typeName⟩
    (v, ⟨v :: s.named, s.taken + 1⟩)

end Slots

/-- The slots of every kind of storage. -/
structure Table where
  statics : Slots
  fields : Slots
  arguments : Slots
  locals : Slots
  deriving DecidableEq, Repr

namespace Table

/-- No slot taken. -/
def empty : Table := ⟨.empty, .empty, .empty, .empty⟩

/-- The slots of one kind of storage. -/
def slots (t : Table) : Storage → Slots
  | .static => t.statics
  | .field => t.fields
  | .argument => t.arguments
  | .local_ => t.locals

/-- The table with other slots for one kind of storage. -/
def setSlots (t : Table) (s : Slots) : Storage → Table
  | .static => { t with statics := s }
  | .field => { t with fields := s }
  | .argument => { t with arguments := s }
  | .local_ => { t with locals := s }

@[simp] theorem slots_setSlots_self (t : Table) (s : Slots) (k : Storage) :
    (t.setSlots s k).slots k = s := by cases k <;> rfl

theorem slots_setSlots_of_ne (t : Table) (s : Slots) {k j : Storage} (h : j ≠ k) :
    (t.setSlots s k).slots j = t.slots j := by
  cases k <;> cases j <;> first | rfl | exact absurd rfl h

/-- The variable of a name in one kind of storage. -/
def get? (t : Table) (name : String) (k : Storage) : Option Variable := (t.slots k).get? name

/-- The number of slots taken in one kind of storage. -/
def count (t : Table) (k : Storage) : UInt16 := (t.slots k).taken

/-- Takes a slot for nobody. -/
def reserve (t : Table) (k : Storage) : UInt16 × Table :=
  let (slot, s) := (t.slots k).reserve
  (slot, t.setSlots s k)

/-- The variable of a name, which takes the next slot if it has none. -/
def define (t : Table) (name : String) (k : Storage) (typeName : String) : Variable × Table :=
  let (v, s) := (t.slots k).define k name typeName
  (v, t.setSlots s k)

/-- The table with variables that are declared together. -/
def declare (t : Table) (k : Storage) (typeName : String) (names : List String) : Table :=
  names.foldl (fun t name => (t.define name k typeName).2) t

end Table

end JackCompiler
