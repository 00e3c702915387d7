import JackCompiler.Proofs.Execution.RoutineCode
import JackCompiler.Proofs.Names.Declarations
/-!
# The scope at a place of a body

What a routine sees at a place of its body are its parameters, the locals declared in front of that
place, and the names of its class. Slots are handed out for the parameters first, behind the object
of a method, and then for the locals.
-/

namespace JackCompiler

/-- The number of arguments that a method finds in front of its parameters. -/
def RoutineKind.ownArguments (kind : RoutineKind) : Nat := if kind = .method then 1 else 0

namespace Routine

variable (table : Table) (r : Routine) (declared : List (String × String))

/-- The scope behind the locals declared so far. -/
def scopeAt : Scope := (r.scope table).defineLocals declared

theorem scopeAt_kind : (r.scopeAt table declared).kind = r.kind := by
  rw [scopeAt, Scope.defineLocals, scope, Scope.withParameters_eq, Scope.enter]

theorem scopeAt_owner : (r.scopeAt table declared).owner = table := by
  rw [scopeAt, Scope.defineLocals, scope, Scope.withParameters_eq, Scope.enter]

theorem scopeAt_locals : (r.scopeAt table declared).own.slots .local_ =
    Slots.defineAll ⟨[], UInt16.ofNat 0⟩ .local_ declared := by
  rw [scopeAt, Scope.defineLocals, Table.slots_setSlots_self, scope, Scope.withParameters_eq,
    Table.slots_setSlots_of_ne _ _ (by decide), Scope.enter]
  cases r.kind <;> rfl

theorem scopeAt_arguments : (r.scopeAt table declared).own.slots .argument =
    Slots.defineAll ⟨[], UInt16.ofNat r.kind.ownArguments⟩ .argument
      (r.parameters.map fun p => (p.name, p.type.name)) := by
  rw [scopeAt, Scope.defineLocals, Table.slots_setSlots_of_ne _ _ (by decide), scope,
    Scope.withParameters_eq, Table.slots_setSlots_self, Scope.enter]
  cases r.kind <;> rfl

end Routine

/-! ### The scope behind code -/

variable {base : Scope} {declared : List (String × String)} {className : String} {f f' : Frame}
  {code : List Instruction}

/-- Behind the code of a statement, the locals declared so far are those of the statement too. -/
theorem Stmt.code_locals {s : Stmt} (scope : f.scope = base.defineLocals declared)
    (h : s.code className f = .ok (code, f')) :
    f'.scope = base.defineLocals (declared ++ s.locals) := by
  rw [Stmt.code_scope h, Stmt.scopeBehind_eq, scope, Scope.defineLocals_append]

/-- Behind the code of a block, they are those of the block too. -/
theorem blockCode_locals {ss : List Stmt} (scope : f.scope = base.defineLocals declared)
    (h : blockCode className ss f = .ok (code, f')) :
    f'.scope = base.defineLocals (declared ++ blockLocals ss) := by
  rw [blockCode_scope h, blockScope_eq, scope, Scope.defineLocals_append]

end JackCompiler
