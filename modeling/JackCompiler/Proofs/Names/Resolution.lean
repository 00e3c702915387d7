import JackCompiler.Proofs.Names.RoutineScope
/-!
# What a name stands for

At a place of a body a name stands for nothing exactly if it is not declared in front of that place,
is no parameter, is no field of an object that the routine has, and is no static. A parameter that
no local hides stands for an argument, whose slot counts the object of a method and the different
names in front of the parameter.
-/

namespace JackCompiler

/-- Names defined behind reserved slots are found, and no others. -/
theorem Slots.get?_defineAll_eq_none {k : Storage} {slot : UInt16} {typed : List (String × String)}
    {name : String} :
    (Slots.defineAll ⟨[], slot⟩ k typed).get? name = none ↔ name ∉ typed.map Prod.fst := by
  rw [Slots.get?_eq_none, ← List.mem_toFinset, Slots.names_defineAll]
  simp [Slots.names]

namespace ClassTree

variable (c : ClassTree) (name : String)

/-- The statics found in the table of a class are those that it declares. -/
theorem get?_static : c.table.get? name .static = none ↔ name ∉ c.staticNames := by
  rw [Table.get?, table_slots, ← c.typed_static]
  exact Slots.get?_defineAll_eq_none

/-- The fields found in the table of a class are those that it declares. -/
theorem get?_field : c.table.get? name .field = none ↔ name ∉ c.fieldNames := by
  rw [Table.get?, table_slots, ← c.typed_field]
  exact Slots.get?_defineAll_eq_none

end ClassTree

namespace Routine

variable {table : Table} {r : Routine} {declared : List (String × String)} {name : String}

theorem get?_local : (r.scopeAt table declared).own.get? name .local_ = none ↔
    name ∉ declared.map Prod.fst := by
  rw [Table.get?, scopeAt_locals]
  exact Slots.get?_defineAll_eq_none

theorem get?_argument : (r.scopeAt table declared).own.get? name .argument = none ↔
    name ∉ r.parameterNames := by
  rw [Table.get?, scopeAt_arguments, Slots.get?_defineAll_eq_none, List.map_map]
  rfl

/-- A name stands for nothing if it is none of the names that the place sees. -/
theorem resolve_eq_none {c : ClassTree} : (r.scopeAt c.table declared).resolve name = none ↔
    name ∉ declared.map Prod.fst ∧ name ∉ r.parameterNames ∧
      (r.kind.hasReceiver → name ∉ c.fieldNames) ∧ name ∉ c.staticNames := by
  rw [Scope.resolve, Option.or_eq_none_iff, Option.or_eq_none_iff, Option.or_eq_none_iff,
    get?_local, get?_argument, scopeAt_kind, scopeAt_owner, c.get?_static, ← c.get?_field]
  cases r.kind.hasReceiver <;> simp

/-- A parameter that no local hides stands for an argument. Its slot counts the object of a method
and the different names in front of the parameter. -/
theorem resolve_parameter (parameter : name ∈ r.parameterNames)
    (visible : name ∉ declared.map Prod.fst) :
    ∃ typeName, (r.scopeAt table declared).resolve name = some ⟨name, .argument, UInt16.ofNat
      (r.kind.ownArguments + distinctNames (r.parameterNames.takeWhile (· ≠ name))), typeName⟩ := by
  have same : (r.parameters.map fun p => (p.name, p.type.name)).map Prod.fst = r.parameterNames :=
    List.map_map ..
  rw [← same] at parameter
  obtain ⟨typeName, found⟩ :=
    Slots.get?_defineAll_reserved .argument r.kind.ownArguments parameter
  rw [same, ← r.scopeAt_arguments table declared] at found
  exact ⟨typeName, by rw [Scope.resolve, get?_local.2 visible, Table.get?, found]; rfl⟩

end Routine

end JackCompiler
