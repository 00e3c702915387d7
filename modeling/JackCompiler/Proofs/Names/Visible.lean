import JackCompiler.Proofs.Names.Mentions
import JackCompiler.Proofs.Names.Resolution
/-!
# Names and types that a place sees

Which names a place of a body sees, and of which types they are, is read off the declarations: first
the locals in front of the place, then the parameters, then the fields, unless the routine is a
function, then the statics. Within each of these the first declaration of a name counts. A mention
is sound if it can be understood in this way, and these are the mentions that code is made for.

        static Point p;  …  function void f(int p) { do p.draw(); var Point p; do p.draw(); }
                                                        p : int                   p : Point
-/

namespace JackCompiler

/-- The name of the type that a name has at a place of a routine, behind the locals declared. -/
def Routine.typeOf? (c : ClassTree) (r : Routine) (declared : List (String × String))
    (name : String) : Option String :=
  (declared.lookup name).or <|
    ((r.parameters.map fun p => (p.name, p.type.name)).lookup name).or <|
      (if r.kind.hasReceiver then (c.members.flatMap (·.typed .field)).lookup name else none).or <|
        (c.members.flatMap (·.typed .static)).lookup name

/-- A name is declared where a place of a routine sees it, behind the locals declared. -/
def Routine.Sees (c : ClassTree) (r : Routine) (declared : List (String × String))
    (name : String) : Prop :=
  name ∈ declared.map Prod.fst ∨ name ∈ r.parameterNames ∨
    r.kind.hasReceiver ∧ name ∈ c.fieldNames ∨ name ∈ c.staticNames

instance (c : ClassTree) (r : Routine) (declared : List (String × String)) (name : String) :
    Decidable (r.Sees c declared name) := inferInstanceAs (Decidable (_ ∨ _ ∨ _ ∨ _))

namespace Mention

/-- A variable that is read or assigned is seen, the receiver of a call is no variable of a
primitive type, and there is an object for `this`. -/
def Sound (c : ClassTree) (r : Routine) (m : Mention) : Prop :=
  match m.use with
  | .read | .assigned | .array => r.Sees c m.declared m.name
  | .receiver => ∀ typeName ∈ r.typeOf? c m.declared m.name, ¬ isPrimitive typeName
  | .this => r.kind ≠ .function

instance (c : ClassTree) (r : Routine) : (m : Mention) → Decidable (m.Sound c r)
  | ⟨.read, name, _, declared⟩ | ⟨.assigned, name, _, declared⟩ | ⟨.array, name, _, declared⟩ =>
    inferInstanceAs (Decidable (r.Sees c declared name))
  | ⟨.receiver, name, _, declared⟩ =>
    inferInstanceAs (Decidable (∀ typeName ∈ r.typeOf? c declared name, ¬ isPrimitive typeName))
  | ⟨.this, _, _, _⟩ => inferInstanceAs (Decidable (r.kind ≠ .function))

end Mention

/-! ### Types of variables -/

namespace Slots

variable {s : Slots} {k : Storage} {name typeName : String}

/-- A name that has no slot yet takes the type of its declaration. -/
theorem typeName_define (other : String) :
    ((s.define k other typeName).2.get? name).map (·.typeName) =
      ((s.get? name).map (·.typeName)).or ([(other, typeName)].lookup name) := by
  by_cases known : other ∈ s.names
  · rw [define_known known]
    by_cases same : name = other
    · subst same
      obtain ⟨v, hv⟩ := Option.ne_none_iff_exists'.1 (mt get?_eq_none.1 (not_not.2 known))
      simp [hv]
    · simp [List.lookup_cons, beq_false_of_ne same]
  · rw [define_new known]
    by_cases same : name = other
    · subst same
      rw [get?_eq_none.2 known]
      simp [get?]
    · simp [get?, List.lookup_cons, beq_false_of_ne same, Ne.symm same]

/-- Behind declarations a name has the type of the first. -/
theorem typeName_defineAll (typed : List (String × String)) :
    ((s.defineAll k typed).get? name).map (·.typeName) =
      ((s.get? name).map (·.typeName)).or (typed.lookup name) := by
  induction typed generalizing s with
  | nil => simp
  | cons d typed ih =>
    rw [defineAll_cons, ih, typeName_define, Option.or_assoc, ← List.lookup_append]
    rfl

theorem typeName_reserved (slot : UInt16) (typed : List (String × String)) :
    ((Slots.defineAll ⟨[], slot⟩ k typed).get? name).map (·.typeName) = typed.lookup name := by
  rw [typeName_defineAll]
  rfl

end Slots

variable {c : ClassTree} {r : Routine} {declared : List (String × String)} {name : String}

/-- What a name stands for has the type that is declared for it. -/
theorem Routine.typeName_resolve :
    ((r.scopeAt c.table declared).resolve name).map (·.typeName) = r.typeOf? c declared name := by
  have field : ((if r.kind.hasReceiver then c.table.get? name .field else none).map (·.typeName)) =
      if r.kind.hasReceiver then (c.members.flatMap (·.typed .field)).lookup name else none := by
    rw [Table.get?, ClassTree.table_slots, ← Slots.typeName_reserved 0]
    split <;> rfl
  rw [Scope.resolve, Option.map_or, Option.map_or, Option.map_or, scopeAt_kind, scopeAt_owner, field]
  simp only [Table.get?, scopeAt_locals, scopeAt_arguments, ClassTree.table_slots, Slots.empty,
    Slots.typeName_reserved, typeOf?]

/-- A name has no type exactly where it is not seen. -/
theorem Routine.sees_iff : r.Sees c declared name ↔
    (r.scopeAt c.table declared).resolve name ≠ none := by
  rw [Ne, resolve_eq_none, Sees]
  tauto

/-- Sound mentions are those that code can be made for. -/
theorem Mention.allowed_iff {m : Mention} : m.Allowed (r.scope c.table) ↔ m.Sound c r := by
  obtain ⟨use, name, position, declared⟩ := m
  cases use with
  | read | assigned | array => exact Routine.sees_iff.symm
  | receiver =>
    have same : ((r.scopeAt c.table declared).resolve name).map (·.typeName) =
        r.typeOf? c declared name := Routine.typeName_resolve
    simp only [Allowed, Sound, ← same, Option.mem_def, Option.map_eq_some_iff]
    exact ⟨fun object _ ⟨v, hv, type⟩ => type ▸ object v hv, fun object v hv => object _ ⟨v, hv, rfl⟩⟩
  | this =>
    have kind : (r.scope c.table).kind = r.kind := r.scopeAt_kind c.table []
    simp only [Allowed, Sound, kind]
    cases r.kind <;> decide

end JackCompiler
