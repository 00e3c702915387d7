import JackCompiler.Proofs.Execution.Meaning
import JackCompiler.Proofs.Names.Slots
/-!
# What is declared where

The slots of a class are those of its static names and of its field names in order, and the slots of
a routine those of its parameters and of the names that its body declares, however deep. A name is
resolved to a variable of one of these.
-/

namespace JackCompiler

/-! ### Tables -/

namespace Table

@[simp] theorem setSlots_slots (t : Table) (k : Storage) : t.setSlots (t.slots k) k = t := by
  cases k <;> rfl

@[simp] theorem setSlots_setSlots (t : Table) (s s' : Slots) (k : Storage) :
    (t.setSlots s k).setSlots s' k = t.setSlots s' k := by cases k <;> rfl

/-- Names of one type are defined in order, and other kinds of storage stay as they are. -/
theorem declare_eq (t : Table) (k : Storage) (typeName : String) (names : List String) :
    t.declare k typeName names =
      t.setSlots ((t.slots k).defineAll k (names.map (·, typeName))) k := by
  induction names generalizing t with
  | nil => exact (t.setSlots_slots k).symm
  | cons name names ih =>
    change (t.define name k typeName).2.declare k typeName names = _
    rw [ih]
    simp [define]

end Table

/-- The names of a declaration, each with the name of its type. -/
def Declaration.typed (d : Declaration) : List (String × String) := d.names.map (·, d.type.name)

/-! ### Classes -/

/-- The static names of a class, in the order of the text. -/
def ClassTree.staticNames (c : ClassTree) : List String := c.statics.flatMap (·.names)

/-- The field names of a class, in the order of the text. -/
def ClassTree.fieldNames (c : ClassTree) : List String := c.fields.flatMap (·.names)

/-- The names that a member declares for a kind of storage. -/
def Member.typed : Member → Storage → List (String × String)
  | .shared d, .static | .perObject d, .field => d.typed
  | _, _ => []

/-- The table with the names that a member declares. -/
def Table.declareMember (t : Table) : Member → Table
  | .shared d => t.declare .static d.type.name d.names
  | .perObject d => t.declare .field d.type.name d.names
  | .routine _ => t

theorem Table.slots_declareMember (t : Table) (m : Member) (k : Storage) :
    (t.declareMember m).slots k = (t.slots k).defineAll k (m.typed k) := by
  cases m with
  | shared d => rw [declareMember, declare_eq]; cases k <;> rfl
  | perObject d => rw [declareMember, declare_eq]; cases k <;> rfl
  | routine r => rfl

theorem Table.slots_declareMembers (t : Table) (members : List Member) (k : Storage) :
    (members.foldl declareMember t).slots k =
      (t.slots k).defineAll k (members.flatMap (·.typed k)) := by
  induction members generalizing t with
  | nil => rfl
  | cons m members ih =>
    rw [List.foldl_cons, ih, slots_declareMember, List.flatMap_cons, Slots.defineAll_append]

/-- The slots of a class are those of its names in order, wherever these stand among the routines. -/
theorem ClassTree.table_slots (c : ClassTree) (k : Storage) :
    c.table.slots k = Slots.empty.defineAll k (c.members.flatMap (·.typed k)) := by
  have fold : c.table = c.members.foldl Table.declareMember .empty := by
    rw [table]
    congr 1
  rw [fold, Table.slots_declareMembers]
  cases k <;> rfl

theorem ClassTree.typed_static (c : ClassTree) :
    (c.members.flatMap (·.typed .static)).map Prod.fst = c.staticNames := by
  rw [staticNames, statics, List.filterMap_eq_flatMap_toList, List.flatMap_assoc, List.map_flatMap]
  congr 1
  funext m
  cases m <;> simp [Member.typed, Declaration.typed, Function.comp_def]

theorem ClassTree.typed_field (c : ClassTree) :
    (c.members.flatMap (·.typed .field)).map Prod.fst = c.fieldNames := by
  rw [fieldNames, fields, List.filterMap_eq_flatMap_toList, List.flatMap_assoc, List.map_flatMap]
  congr 1
  funext m
  cases m <;> simp [Member.typed, Declaration.typed, Function.comp_def]

/-! ### Scopes -/

namespace Scope

/-- The scope with more locals. -/
def defineLocals (s : Scope) (typed : List (String × String)) : Scope :=
  { s with own := s.own.setSlots ((s.own.slots .local_).defineAll .local_ typed) .local_ }

theorem defineLocals_nil (s : Scope) : s.defineLocals [] = s := by simp [defineLocals]

theorem defineLocals_append (s : Scope) (typed more : List (String × String)) :
    s.defineLocals (typed ++ more) = (s.defineLocals typed).defineLocals more := by
  simp [defineLocals, Slots.defineAll_append]

theorem withLocals_eq (s : Scope) (d : Declaration) : s.withLocals d = s.defineLocals d.typed := by
  have own (names : List String) (s : Scope) :
      names.foldl (fun s name => (s.defineLocal name d.type.name).2) s =
        { s with own := s.own.declare .local_ d.type.name names } := by
    induction names generalizing s with
    | nil => rfl
    | cons name names ih => exact ih _
  rw [withLocals, own, Table.declare_eq]
  rfl

/-- The name of a parameter with the name of its type. -/
theorem withParameters_eq (s : Scope) (parameters : List Parameter) :
    s.withParameters parameters =
      { s with own := s.own.setSlots ((s.own.slots .argument).defineAll .argument
          (parameters.map fun p => (p.name, p.type.name))) .argument } := by
  induction parameters generalizing s with
  | nil => simp [withParameters]
  | cons p parameters ih =>
    change (s.defineArgument p.name p.type.name).2.withParameters parameters = _
    rw [ih]
    simp [defineArgument, Table.define]

section

variable {s : Scope} {name : String} {v : Variable}

/-- A name is found among the locals, the arguments, the fields of the object, or the statics. -/
theorem get?_of_resolve (h : s.resolve name = some v) :
    s.own.get? name .local_ = some v ∨ s.own.get? name .argument = some v ∨
      s.kind.hasReceiver ∧ s.owner.get? name .field = some v ∨
      s.owner.get? name .static = some v := by
  simp only [resolve, Option.or_eq_some_iff] at h
  rcases h with h | ⟨-, h | ⟨-, h | ⟨-, h⟩⟩⟩
  · exact .inl h
  · exact .inr (.inl h)
  · split at h
    · next object => exact .inr (.inr (.inl ⟨object, h⟩))
    · cases h
  · exact .inr (.inr (.inr h))

/-- A name stands for a local, an argument, a field of the object, or a static. -/
theorem mem_of_resolve (h : s.resolve name = some v) :
    v ∈ (s.own.slots .local_).named ∨ v ∈ (s.own.slots .argument).named ∨
      s.kind.hasReceiver ∧ v ∈ (s.owner.slots .field).named ∨
      v ∈ (s.owner.slots .static).named :=
  (get?_of_resolve h).imp Slots.mem_of_get? <| Or.imp Slots.mem_of_get? <|
    Or.imp (And.imp_right Slots.mem_of_get?) Slots.mem_of_get?

/-- What a name stands for has that name. -/
theorem name_of_resolve (h : s.resolve name = some v) : v.name = name := by
  rcases get?_of_resolve h with h | h | ⟨-, h⟩ | h <;> exact Slots.name_of_get? h

end

end Scope

/-! ### Bodies -/

mutual

/-- The names that a statement declares, in the order of the text, each with the name of its type. -/
def Stmt.locals : Stmt → List (String × String)
  | .declare d => d.typed
  | .ifThen _ body => blockLocals body
  | .ifElse _ body alternative => blockLocals body ++ blockLocals alternative
  | .repeatWhile _ body => blockLocals body
  | .assign .. | .assignElement .. | .perform .. | .giveBack .. => []

/-- The names that a block declares, in the order of the text, each with the name of its type. -/
def blockLocals : List Stmt → List (String × String)
  | [] => []
  | s :: ss => s.locals ++ blockLocals ss

end

mutual

/-- Behind a statement the names that it declares are defined. -/
theorem Stmt.scopeBehind_eq : ∀ (s : Stmt) (scope : Scope),
    s.scopeBehind scope = scope.defineLocals s.locals
  | .declare d, scope => scope.withLocals_eq d
  | .ifThen _ body, scope => blockScope_eq body scope
  | .ifElse _ body alternative, scope => by
    rw [Stmt.scopeBehind, Stmt.locals, Scope.defineLocals_append, ← blockScope_eq, ← blockScope_eq]
  | .repeatWhile _ body, scope => blockScope_eq body scope
  | .assign .., scope | .assignElement .., scope | .perform .., scope | .giveBack .., scope =>
    scope.defineLocals_nil.symm

/-- Behind a block the names that it declares are defined. -/
theorem blockScope_eq : ∀ (ss : List Stmt) (scope : Scope),
    blockScope ss scope = scope.defineLocals (blockLocals ss)
  | [], scope => scope.defineLocals_nil.symm
  | s :: ss, scope => by
    rw [blockScope, blockLocals, Scope.defineLocals_append, ← Stmt.scopeBehind_eq, ← blockScope_eq]

end

/-- The names of the parameters of a routine. -/
def Routine.parameterNames (r : Routine) : List String := r.parameters.map (·.name)

/-- The names that the body of a routine declares, in the order of the text. -/
def Routine.localNames (r : Routine) : List String := (blockLocals r.body).map Prod.fst

end JackCompiler
