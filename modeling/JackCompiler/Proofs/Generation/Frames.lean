import JackCompiler.Proofs.Generation.Routines
import JackCompiler.Proofs.Names.RoutineScope
/-!
# Code keeps to its frame

A routine uses no slot that is not declared: no local that its own directive does not count, no
argument that its callers do not push, no static and no field that its class does not have. A method
and a constructor set the first base register once, in front of all uses, and a function leaves it
alone. An element is used right behind its selection.

Slots are handed out while a body is read and counted behind it. So the argument looks back from the
end of the body: every variable that a name stood for on the way is still there, and the slots of
that scope are dense.

        scope in front  ⊆  scope behind a declaration  ⊆  …  ⊆  last scope: slots below its count
-/

namespace JackCompiler

/-! ### Limits -/

/-- What a routine may use: its object if it has one, and a number of slots of each kind. -/
structure Limits where
  object : Bool
  slots : Storage → Nat

namespace Limits

variable (l : Limits)

/-- Whether a routine may use a slot. -/
def Allows : Segment → UInt16 → Prop
  | .constant, _ => True
  | .locals, i => i.toNat < l.slots .local_
  | .arguments, i => i.toNat < l.slots .argument
  | .statics, i => i.toNat < l.slots .static
  | .this, i => l.object ∧ i.toNat < l.slots .field
  | .pointer, i => l.object ∧ i = 0 ∨ i = 1
  | .that, i | .temp, i => i = 0

/-- Whether an instruction may stand in a body, where the object stays the same. -/
def Admits : Instruction → Prop
  | .push segment i => l.Allows segment i
  | .pop segment i => l.Allows segment i ∧ segment ≠ .constant ∧ ¬ (segment = .pointer ∧ i = 0)
  | _ => True

end Limits

/-- Whether an instruction uses an element. -/
def Instruction.usesElement : Instruction → Bool
  | push .that _ | pop .that _ => true
  | _ => false

/-- Every element that the code uses is selected right in front. -/
def Selected (code : List Instruction) : Prop :=
  ∀ pc i, code[pc]? = some i → i.usesElement →
    ∃ before, pc = before + 1 ∧ code[before]? = some (.pop .pointer 1)

theorem Selected.append {a b : List Instruction} (ha : Selected a) (hb : Selected b) :
    Selected (a ++ b) := by
  intro pc i here uses
  rcases Nat.lt_or_ge pc a.length with inside | behind
  · rw [List.getElem?_append_left inside] at here
    obtain ⟨before, rfl, selects⟩ := ha pc i here uses
    refine ⟨before, rfl, ?_⟩
    rwa [List.getElem?_append_left (by omega)]
  · rw [List.getElem?_append_right behind] at here
    obtain ⟨before, same, selects⟩ := hb _ i here uses
    refine ⟨a.length + before, by omega, ?_⟩
    rwa [List.getElem?_append_right (by omega), Nat.add_sub_cancel_left]

/-- Code that uses no element selects none. -/
theorem selected_of_not_usesElement {code : List Instruction}
    (h : ∀ i ∈ code, i.usesElement = false) : Selected code := by
  intro pc i here uses
  rw [h i (List.mem_of_getElem? here)] at uses
  cases uses

/-- Code of a body that keeps to the limits of its routine. -/
structure Within (l : Limits) (code : List Instruction) : Prop where
  admitted : ∀ i ∈ code, l.Admits i
  selected : Selected code

namespace Within

variable {l : Limits} {a b : List Instruction}

theorem append (ha : Within l a) (hb : Within l b) : Within l (a ++ b) :=
  ⟨List.forall_mem_append.2 ⟨ha.admitted, hb.admitted⟩, ha.selected.append hb.selected⟩

theorem singleton {i : Instruction} (admitted : l.Admits i) (other : i.usesElement = false) :
    Within l [i] :=
  ⟨List.forall_mem_singleton.2 admitted,
    selected_of_not_usesElement (List.forall_mem_singleton.2 other)⟩

/-- An element is selected and used. -/
theorem element {i : Instruction} (admitted : l.Admits i) : Within l (selectElement ++ [i]) where
  admitted := by
    refine List.forall_mem_append.2 ⟨?_, List.forall_mem_singleton.2 admitted⟩
    simp [selectElement, Limits.Admits, Limits.Allows]
  selected := by
    intro pc j here uses
    rcases pc with _ | _ | _ | pc
    · cases here
      cases uses
    · cases here
      cases uses
    · exact ⟨1, rfl, rfl⟩
    · simp [selectElement] at here

end Within

/-! ### Scopes on the way through a body -/

/-- A scope on the way to another: that has the same names, and more locals perhaps. -/
structure Scope.Before (scope last : Scope) : Prop where
  kind : scope.kind = last.kind
  owner : scope.owner = last.owner
  arguments : scope.own.slots .argument = last.own.slots .argument
  locals : (scope.own.slots .local_).named ⊆ (last.own.slots .local_).named

/-- What is in front of a declaration is on the way. -/
theorem Scope.Before.of_withLocals {scope last : Scope} {d : Declaration}
    (h : (scope.withLocals d).Before last) : scope.Before last := by
  rw [withLocals_eq] at h
  refine ⟨h.kind, h.owner, ?_, ?_⟩
  · rw [← h.arguments]
    exact (Table.slots_setSlots_of_ne _ _ (by decide)).symm
  · have locals := h.locals
    simp only [defineLocals, Table.slots_setSlots_self] at locals
    exact List.Subset.trans (Slots.named_subset_defineAll _) locals

/-- The variables of some slots are stored as said, and keep to limits. -/
def Limits.Bounds (l : Limits) (s : Slots) (k : Storage) : Prop :=
  ∀ v ∈ s.named, v.storage = k ∧ v.slot.toNat < l.slots k

/-- Names defined behind reserved slots keep to limits that leave room for both. -/
theorem Limits.bounds_defineAll {l : Limits} {k : Storage} {reserved : Nat}
    {typed : List (String × String)} {names : List String} (same : typed.map Prod.fst = names)
    (room : reserved + distinctNames names < 65536)
    (le : reserved + distinctNames names ≤ l.slots k) :
    l.Bounds (Slots.defineAll ⟨[], UInt16.ofNat reserved⟩ k typed) k := by
  subst same
  obtain ⟨dense, taken⟩ := Slots.defineAll_reserved k reserved typed room
  exact fun v hv => ⟨dense.stored v hv, by have := dense.below v hv; omega⟩

/-- The variables that a scope sees keep to limits. -/
structure Limits.Cover (l : Limits) (scope : Scope) : Prop where
  object : l.object = scope.kind.hasReceiver
  locals : l.Bounds (scope.own.slots .local_) .local_
  arguments : l.Bounds (scope.own.slots .argument) .argument
  fields : l.Bounds (scope.owner.slots .field) .field
  statics : l.Bounds (scope.owner.slots .static) .static

variable {l : Limits} {scope last : Scope}

/-- Where a name is resolved on the way, the variable keeps to the limits. -/
theorem Limits.Cover.resolved (cover : l.Cover last) (before : scope.Before last) {name : String}
    {v : Variable} (h : scope.resolve name = some v) : l.Allows v.storage.segment v.slot := by
  rcases Scope.mem_of_resolve h with h | h | ⟨object, h⟩ | h
  · obtain ⟨stored, below⟩ := cover.locals v (before.locals h)
    rwa [stored]
  · rw [before.arguments] at h
    obtain ⟨stored, below⟩ := cover.arguments v h
    rwa [stored]
  · rw [before.owner] at h
    obtain ⟨stored, below⟩ := cover.fields v h
    rw [stored]
    exact ⟨by rwa [cover.object, ← before.kind], below⟩
  · rw [before.owner] at h
    obtain ⟨stored, below⟩ := cover.statics v h
    rwa [stored]

/-- Variables are neither numbers nor base registers. -/
theorem Storage.segment_ne (k : Storage) :
    k.segment ≠ .constant ∧ k.segment ≠ .pointer := by
  cases k <;> decide

theorem Variable.push_usesElement (v : Variable) : v.push.usesElement = false := by
  obtain ⟨name, storage, slot, typeName⟩ := v
  cases storage <;> rfl

theorem Variable.pop_usesElement (v : Variable) : v.pop.usesElement = false := by
  obtain ⟨name, storage, slot, typeName⟩ := v
  cases storage <;> rfl

/-- The pieces of a body keep to the limits that cover its last scope. -/
theorem Limits.Cover.assembles (cover : l.Cover last) (className : String) :
    Assembles className (·.Before last) (Within l) where
  declared h := h.of_withLocals
  expressions {scope} before := {
    nil := ⟨by simp, selected_of_not_usesElement (by simp)⟩
    append := .append
    constant := fun n => .singleton trivial rfl
    operation := fun o => .singleton trivial rfl
    call := fun name arity => .singleton trivial rfl
    object := fun object => .singleton (.inl ⟨by rwa [cover.object, ← before.kind], rfl⟩) rfl
    variable_ := fun {_ v} h => .singleton (cover.resolved before h) v.push_usesElement
    element := .element rfl }
  assigned {_ _ v} before h := by
    obtain ⟨number, base⟩ := v.storage.segment_ne
    exact .singleton ⟨cover.resolved before h, number, fun same => base same.1⟩ v.pop_usesElement
  assignedElement := .element ⟨rfl, by decide⟩
  dropped := .singleton ⟨rfl, by decide⟩ rfl
  label _ := .singleton trivial rfl
  goto _ := .singleton trivial rfl
  ifGoto _ := .singleton trivial rfl
  giveBack := .singleton trivial rfl

/-! ### Routines -/

/-- The code pushes from a slot or pops into it. -/
def Touches (code : List Instruction) (segment : Segment) (i : UInt16) : Prop :=
  .push segment i ∈ code ∨ .pop segment i ∈ code

theorem touches_append {a b : List Instruction} {segment : Segment} {i : UInt16} :
    Touches (a ++ b) segment i ↔ Touches a segment i ∨ Touches b segment i := by
  simp only [Touches, List.mem_append, or_or_or_comm]

/-- What a body touches is allowed. -/
theorem Within.allows {l : Limits} {code : List Instruction} {segment : Segment} {i : UInt16}
    (h : Within l code) (touches : Touches code segment i) : l.Allows segment i := by
  rcases touches with push | pop
  · exact h.admitted _ push
  · exact (h.admitted _ pop).1

/-- The names of a class that is not too large for words: of each kind of storage fewer than 65535
different ones, so that there is room for them and for the object. -/
structure ClassTree.NamesFit (c : ClassTree) : Prop where
  statics : distinctNames c.staticNames < 65535
  fields : distinctNames c.fieldNames < 65535
  parameters : ∀ r ∈ c.routines, distinctNames r.parameterNames < 65535
  locals : ∀ r ∈ c.routines, distinctNames r.localNames < 65535

/-- What a routine may use: its object, the static names and the fields of its class, an argument for
the object of a method and for each parameter, and the locals that its body declares. -/
def Routine.limits (c : ClassTree) (r : Routine) : Limits where
  object := r.kind.hasReceiver
  slots
    | .static => distinctNames c.staticNames
    | .field => distinctNames c.fieldNames
    | .argument => r.kind.ownArguments + distinctNames r.parameterNames
    | .local_ => distinctNames r.localNames

/-- The last scope of a routine: behind its body. -/
def Routine.lastScope (table : Table) (r : Routine) : Scope := blockScope r.body (r.scope table)

theorem Routine.lastScope_eq (table : Table) (r : Routine) :
    r.lastScope table = r.scopeAt table (blockLocals r.body) := blockScope_eq ..

/-- The directive of a routine counts the names that its body declares, in a word. -/
theorem Routine.localCount_lastScope (table : Table) (r : Routine) :
    (r.lastScope table).localCount = UInt16.ofNat (distinctNames r.localNames) := by
  rw [Scope.localCount, Table.count, lastScope_eq, scopeAt_locals, Slots.taken_defineAll,
    distinctNames_eq_card, localNames]
  simp [Slots.names]

variable {c : ClassTree} {r : Routine}

/-- Where the names fit, a word counts them all. -/
theorem ClassTree.NamesFit.localCount (fits : c.NamesFit) (hr : r ∈ c.routines) :
    (r.lastScope c.table).localCount.toNat = distinctNames r.localNames := by
  have room : distinctNames r.localNames < UInt16.size := (fits.locals r hr).trans (by decide)
  rw [Routine.localCount_lastScope, UInt16.toNat_ofNat_of_lt' room]

/-- The limits of a routine cover its last scope. -/
theorem ClassTree.NamesFit.cover (fits : c.NamesFit) (hr : r ∈ c.routines) :
    (r.limits c).Cover (r.lastScope c.table) := by
  -- a word counts the names, and the object of a method besides
  have object : r.kind.ownArguments ≤ 1 := by
    unfold RoutineKind.ownArguments
    split <;> omega
  have statics : 0 + distinctNames c.staticNames < 65536 := by have := fits.statics; omega
  have fields : 0 + distinctNames c.fieldNames < 65536 := by have := fits.fields; omega
  have parameters : r.kind.ownArguments + distinctNames r.parameterNames < 65536 := by
    have := fits.parameters r hr
    omega
  have locals : 0 + distinctNames r.localNames < 65536 := by have := fits.locals r hr; omega
  rw [Routine.lastScope_eq]
  constructor
  case object =>
    rw [Routine.scopeAt_kind]
    rfl
  case locals =>
    rw [Routine.scopeAt_locals]
    exact Limits.bounds_defineAll rfl locals (Nat.zero_add _).le
  case arguments =>
    rw [Routine.scopeAt_arguments]
    exact Limits.bounds_defineAll (List.map_map ..) parameters le_rfl
  case fields =>
    rw [Routine.scopeAt_owner, ClassTree.table_slots]
    exact Limits.bounds_defineAll c.typed_field fields (Nat.zero_add _).le
  case statics =>
    rw [Routine.scopeAt_owner, ClassTree.table_slots]
    exact Limits.bounds_defineAll c.typed_static statics (Nat.zero_add _).le

/-! ### The frame of a routine -/

/-- The code of a routine of a class keeps to its frame. -/
structure FrameSafe (c : ClassTree) (r : Routine) (code : List Instruction) : Prop where
  /-- Locals are counted by the directive. -/
  locals : ∃ name count rest, code = .function name count :: rest ∧
    ∀ i, Touches code .locals i → i < count
  arguments : ∀ i, Touches code .arguments i →
    i.toNat < r.parameters.length + r.kind.ownArguments
  statics : ∀ i, Touches code .statics i → i.toNat < distinctNames c.staticNames
  fields : ∀ i, Touches code .this i → i.toNat < distinctNames c.fieldNames
  /-- A function has no object. -/
  function : r.kind = .function → ¬ Touches code .pointer 0 ∧ ∀ i, ¬ Touches code .this i
  /-- The last instruction in front of the body sets the object, and no other does; in front of it
  nothing uses the object. -/
  object : r.kind ≠ .function → ∃ front body,
    r.front c.name c.table = front ++ [.pop .pointer 0] ∧ code = front ++ .pop .pointer 0 :: body ∧
      .pop .pointer 0 ∉ body ∧ ¬ Touches front .pointer 0 ∧ ∀ i, ¬ Touches front .this i
  /-- An element is used right behind its selection. -/
  elements : ∀ (pc : Nat) (i : UInt16), (code[pc]? = some (.push .that i) ∨ code[pc]? = some (.pop .that i)) →
    i = 0 ∧ ∃ before, pc = before + 1 ∧ code[before]? = some (.pop .pointer 1)
  pointers : ∀ i, Touches code .pointer i → i = 0 ∨ i = 1
  scratch : ∀ i, Touches code .temp i → i = 0
  /-- Numbers are no places. -/
  constants : ∀ i, .pop .constant i ∉ code

/-- What stands in front of a body touches numbers, the first argument of a method, and the first
base register where there is an object. -/
theorem Routine.touches_front {className : String} {table : Table} {segment : Segment} {i : UInt16}
    (h : Touches (r.front className table) segment i) :
    segment = .constant ∨ r.kind = .method ∧ segment = .arguments ∧ i = 0 ∨
      r.kind ≠ .function ∧ segment = .pointer ∧ i = 0 := by
  rw [Routine.front] at h
  cases hk : r.kind with
  | function => simp [hk, Touches, RoutineKind.prologue] at h
  | method =>
    obtain ⟨rfl, rfl⟩ | ⟨rfl, rfl⟩ :
        (segment = .arguments ∧ i = 0) ∨ (segment = .pointer ∧ i = 0) := by
      simpa [hk, Touches, RoutineKind.prologue] using h
    · simp
    · simp
  | constructor =>
    obtain ⟨rfl, rfl⟩ | ⟨rfl, rfl⟩ :
        (segment = .constant ∧ i = table.count .field) ∨ (segment = .pointer ∧ i = 0) := by
      simpa [hk, Touches, RoutineKind.prologue, pushConstant] using h
    · simp
    · simp

/-- Where there is an object, it is set last in front of the body. -/
theorem Routine.front_object (className : String) (table : Table) (h : r.kind ≠ .function) :
    ∃ front, r.front className table = front ++ [.pop .pointer 0] ∧
      ¬ Touches front .pointer 0 ∧ ∀ i, ¬ Touches front .this i := by
  rw [Routine.front]
  cases hk : r.kind with
  | function => exact absurd hk h
  | method => exact ⟨[_, _], rfl, by simp [Touches], by simp [Touches]⟩
  | constructor =>
    exact ⟨[_, _, _], rfl, by simp [Touches, pushConstant], by simp [Touches, pushConstant]⟩

/-- Nothing in front of a body uses an element. -/
theorem Routine.front_selected (className : String) (table : Table) (r : Routine) :
    Selected (r.front className table) := by
  refine selected_of_not_usesElement ?_
  rw [Routine.front]
  cases r.kind <;> simp [RoutineKind.prologue, pushConstant, Instruction.usesElement]

theorem Routine.code_frameSafe (fits : c.NamesFit) (hr : r ∈ c.routines)
    {code : List Instruction} (h : r.code c.name c.table = .ok code) : FrameSafe c r code := by
  obtain ⟨body, f, hb, rfl⟩ := Routine.code_eq_ok h
  have last : f.scope = r.lastScope c.table := blockCode_scope hb
  have cover := fits.cover hr
  have before : f.scope.Before (r.lastScope c.table) :=
    ⟨by rw [last], by rw [last], by rw [last], by rw [last]; exact List.Subset.refl _⟩
  have within := (blockCode_assembles (cover.assembles c.name) hb before).2
  have touches {segment : Segment} {i : UInt16}
      (h : Touches (r.front c.name c.table ++ body) segment i) :=
    (touches_append.1 h).imp Routine.touches_front within.allows
  have distinct : distinctNames r.parameterNames ≤ r.parameters.length := by
    rw [← List.length_map Parameter.name]
    exact (List.dedup_sublist _).length_le
  constructor
  case locals =>
    refine ⟨_, _, _, rfl, fun i h => ?_⟩
    rcases touches h with front | (allowed : i.toNat < distinctNames r.localNames)
    · simp at front
    · rw [← fits.localCount hr] at allowed
      exact UInt16.lt_iff_toNat_lt.2 allowed
  case arguments =>
    intro i h
    rcases touches h with front |
      (allowed : i.toNat < r.kind.ownArguments + distinctNames r.parameterNames)
    · obtain ⟨method, rfl⟩ : r.kind = .method ∧ i = 0 := by simpa using front
      simp [method, RoutineKind.ownArguments]
    · omega
  case statics =>
    intro i h
    rcases touches h with front | allowed
    · simp at front
    · exact allowed
  case fields =>
    intro i h
    rcases touches h with front | allowed
    · simp at front
    · exact allowed.2
  case function =>
    intro function
    have none : (r.limits c).object = false := by rw [Routine.limits, function]; rfl
    refine ⟨fun h => ?_, fun i h => ?_⟩
    · rcases touches h with front | allowed
      · simp [function] at front
      · simp [Limits.Allows, none] at allowed
    · rcases touches h with front | allowed
      · simp at front
      · simp [Limits.Allows, none] at allowed
  case object =>
    intro object
    obtain ⟨front, same, pointer, fields⟩ := Routine.front_object c.name c.table object
    refine ⟨front, body, same, by rw [same, List.append_assoc]; rfl, fun h => ?_, pointer, fields⟩
    exact (within.admitted _ h).2.2 ⟨rfl, rfl⟩
  case elements =>
    have selected := (r.front_selected c.name c.table).append within.selected
    intro pc i here
    have touched : Touches (r.front c.name c.table ++ body) .that i :=
      here.imp List.mem_of_getElem? List.mem_of_getElem?
    rcases touches touched with front | allowed
    · simp at front
    · exact ⟨allowed, here.elim (selected pc _ · rfl) (selected pc _ · rfl)⟩
  case pointers =>
    intro i h
    rcases touches h with front | allowed
    · obtain ⟨-, rfl⟩ : r.kind ≠ .function ∧ i = 0 := by simpa using front
      exact .inl rfl
    · exact allowed.imp And.right id
  case scratch =>
    intro i h
    rcases touches h with front | allowed
    · simp at front
    · exact allowed
  case constants =>
    intro i h
    rcases List.mem_append.1 h with front | inside
    · rw [Routine.front] at front
      cases hk : r.kind <;> simp [hk, RoutineKind.prologue, pushConstant] at front
    · exact (within.admitted _ inside).2.1 rfl

/-- **Every routine of a chunk keeps to its frame.** -/
theorem ClassTree.chunk_frames {chunk : Chunk} (h : c.chunk = .ok chunk) (fits : c.NamesFit) :
    List.Forall₂ (FrameSafe c) c.routines chunk.routines := by
  have all : ∀ r ∈ c.routines, r ∈ c.routines := fun _ hr => hr
  have generated := (List.forall₂_and_left c.routines chunk.routines).2 ⟨all, chunk_routines h⟩
  exact generated.imp fun r code both => Routine.code_frameSafe fits both.1 both.2

/-- `class Point { static int made; field int x; constructor Point new(int a) { let x = a;
let made = made + 1; return this; } method int of(Array v) { var int i; let i = x; return v[i]; }
function int made() { return made; } }` -/
def point : ClassTree where
  name := "Point"
  members := [
    .shared ⟨.int, ["made"], none⟩,
    .perObject ⟨.int, ["x"], none⟩,
    .routine ⟨.constructor, .named "Point", "new", [⟨.int, "a", none⟩],
      [.assign "x" (.reference "a" none) none,
        .assign "made" (.binary .add (.reference "made" none) (.constant 1 none) none) none,
        .giveBack (some (.this none)) none], none⟩,
    .routine ⟨.method, .int, "of", [⟨.named "Array", "v", none⟩],
      [.declare ⟨.int, ["i"], none⟩,
        .assign "i" (.reference "x" none) none,
        .giveBack (some (.index (.reference "v" none) (.reference "i" none))) none], none⟩,
    .routine ⟨.function, .int, "made", [], [.giveBack (some (.reference "made" none)) none], none⟩]
  position := none

/-- All kinds of routines and of storage stand in one class. -/
theorem point_frames : ∃ chunk, point.chunk = .ok chunk ∧ point.NamesFit ∧
    List.Forall₂ (FrameSafe point) point.routines chunk.routines := by
  have h : point.chunk = .ok _ := rfl
  have fits : point.NamesFit := ⟨by decide, by decide, by decide, by decide⟩
  exact ⟨_, h, fits, ClassTree.chunk_frames h fits⟩

end JackCompiler
