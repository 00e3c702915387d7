import JackCompiler.Proofs.Names.Mentions
import JackCompiler.Proofs.Names.Resolution
import Mathlib.Data.List.Find
import Mathlib.Data.Set.Function
/-!
# Other names for variables

The variables of a routine are renamed where they are declared and where the body uses them: where
they are read or assigned, and in front of a call. The names of types, routines and classes stay.
Slots only ask which names are equal. So as long as different names stay different, the renamed
declarations take the same slots, and what a name stands for is renamed with it.

        var Point p;   do p.move(i);      ──▶      var Point q;   do q.move(j);
        p in slot 0, of type Point                 q in slot 0, of type Point
-/

namespace JackCompiler

variable (f : String → String)

/-! ### Renaming -/

mutual

/-- The expression with other names for variables. -/
@[simp] def Expr.rename : Expr → Expr
  | .constant value position => .constant value position
  | .boolean value => .boolean value
  | .string value => .string value
  | .null => .null
  | .this position => .this position
  | .reference name position => .reference (f name) position
  | .binary op left right position => .binary op left.rename right.rename position
  | .unary op operand => .unary op operand.rename
  | .call name arguments position => .call name (renameAll arguments) position
  | .methodCall receiver name arguments position =>
    .methodCall receiver.rename name (renameAll arguments) position
  | .index target subscript => .index target.rename subscript.rename

/-- The expressions with other names for variables. -/
def renameAll : List Expr → List Expr
  | [] => []
  | e :: es => e.rename :: renameAll es

end

@[simp] theorem length_renameAll (es : List Expr) : (renameAll f es).length = es.length := by
  induction es with
  | nil => rfl
  | cons e es ih => rw [renameAll, List.length_cons, List.length_cons, ih]

/-- The declaration with other names. -/
def Declaration.rename (d : Declaration) : Declaration := { d with names := d.names.map f }

mutual

/-- The statement with other names for variables. -/
@[simp] def Stmt.rename : Stmt → Stmt
  | .declare d => .declare (d.rename f)
  | .assign name value position => .assign (f name) (value.rename f) position
  | .assignElement name subscript value position =>
    .assignElement (f name) (subscript.rename f) (value.rename f) position
  | .ifThen condition body => .ifThen (condition.rename f) (renameBlock body)
  | .ifElse condition body alternative =>
    .ifElse (condition.rename f) (renameBlock body) (renameBlock alternative)
  | .repeatWhile condition body => .repeatWhile (condition.rename f) (renameBlock body)
  | .perform call position => .perform (call.rename f) position
  | .giveBack value position => .giveBack (value.map (Expr.rename f)) position

/-- The statements with other names for variables. -/
def renameBlock : List Stmt → List Stmt
  | [] => []
  | s :: ss => s.rename :: renameBlock ss

end

/-- The parameter with another name. -/
def Parameter.rename (p : Parameter) : Parameter := { p with name := f p.name }

/-- The routine with other names for its variables. -/
def Routine.rename (r : Routine) : Routine :=
  { r with parameters := r.parameters.map (Parameter.rename f), body := renameBlock f r.body }

/-- Declared names with others in their place. Their types stay. -/
def renameTyped (typed : List (String × String)) : List (String × String) :=
  typed.map (Prod.map f id)

theorem renameTyped_append (typed more : List (String × String)) :
    renameTyped f (typed ++ more) = renameTyped f typed ++ renameTyped f more := List.map_append

theorem Declaration.typed_rename (d : Declaration) :
    (d.rename f).typed = renameTyped f d.typed := by
  simp [rename, typed, renameTyped]

mutual

/-- A renamed statement declares the renamed locals. -/
theorem Stmt.locals_rename : ∀ s : Stmt, (s.rename f).locals = renameTyped f s.locals
  | .declare d => d.typed_rename f
  | .ifThen _ body | .repeatWhile _ body => blockLocals_rename body
  | .ifElse _ body alternative => by
    rw [Stmt.rename, Stmt.locals, Stmt.locals, blockLocals_rename body,
      blockLocals_rename alternative, renameTyped_append]
  | .assign .. | .assignElement .. | .perform .. | .giveBack .. => rfl

theorem blockLocals_rename : ∀ ss : List Stmt,
    blockLocals (renameBlock f ss) = renameTyped f (blockLocals ss)
  | [] => rfl
  | s :: ss => by
    rw [renameBlock, blockLocals, blockLocals, s.locals_rename, blockLocals_rename ss,
      renameTyped_append]

end

/-- The variable with another name. Its slot and its type stay. -/
def Variable.rename (v : Variable) : Variable := { v with name := f v.name }

/-! ### Slots -/

namespace Slots

/-- The slots with other names. -/
def rename (s : Slots) : Slots := ⟨s.named.map (Variable.rename f), s.taken⟩

variable {f} {s : Slots} {k : Storage} {name typeName : String}

theorem names_rename : (s.rename f).names = s.names.map f := by
  simp [names, rename, Variable.rename]

/-- A name that stays different from those with a slot is found under its new name. -/
theorem get?_rename (injective : Set.InjOn f {other | other = name ∨ other ∈ s.names}) :
    (s.rename f).get? (f name) = (s.get? name).map (Variable.rename f) := by
  rw [get?, get?, rename, List.find?_map]
  congr 1
  refine List.find?_congr fun v hv => decide_eq_decide.2 ⟨fun same => ?_, congrArg f⟩
  exact injective (.inr (List.mem_map_of_mem hv)) (.inl rfl) same

/-- What has a name that stays is not renamed. -/
theorem get?_fixed (fixed : f name = name) :
    (s.get? name).map (Variable.rename f) = s.get? name := by
  cases found : s.get? name with
  | none => rfl
  | some v =>
    have same := name_of_get? found
    rw [Option.map_some, Variable.rename, same, fixed, ← same]

theorem rename_define (injective : Set.InjOn f {other | other = name ∨ other ∈ s.names}) :
    (s.define k name typeName).2.rename f = ((s.rename f).define k (f name) typeName).2 := by
  by_cases known : name ∈ s.names
  · have renamed : f name ∈ (s.rename f).names := by
      rw [names_rename]
      exact List.mem_map_of_mem known
    rw [define_known known, define_known renamed]
  · have renamed : f name ∉ (s.rename f).names := by
      rw [names_rename, List.mem_map]
      rintro ⟨other, member, same⟩
      exact known (injective (.inr member) (.inl rfl) same ▸ member)
    rw [define_new known, define_new renamed]
    rfl

/-- Renamed declarations take the same slots. -/
theorem rename_defineAll {typed : List (String × String)}
    (injective : Set.InjOn f {other | other ∈ s.names ∨ other ∈ typed.map Prod.fst}) :
    (s.defineAll k typed).rename f = (s.rename f).defineAll k (renameTyped f typed) := by
  induction typed generalizing s with
  | nil => rfl
  | cons d typed ih =>
    have first : (s.define k d.1 d.2).2.rename f = ((s.rename f).define k (f d.1) d.2).2 := by
      refine rename_define (injective.mono fun other member => ?_)
      exact member.elim (fun same => .inr (same ▸ List.mem_cons_self)) .inl
    rw [defineAll_cons, ih, first]
    · rfl
    · refine injective.mono fun other member => ?_
      simp only [Set.mem_ofPred_eq, mem_names_define, List.map_cons, List.mem_cons] at member ⊢
      tauto

/-- Behind reserved slots, renamed declarations take the same slots. -/
theorem rename_reserved (slot : UInt16) {typed : List (String × String)}
    (injective : Set.InjOn f {other | other ∈ typed.map Prod.fst}) :
    Slots.defineAll ⟨[], slot⟩ k (renameTyped f typed) =
      (Slots.defineAll ⟨[], slot⟩ k typed).rename f := by
  have start : Set.InjOn f {other | other ∈ names ⟨[], slot⟩ ∨ other ∈ typed.map Prod.fst} :=
    injective.mono fun _ member => member.resolve_left List.not_mem_nil
  exact (rename_defineAll start).symm

/-- Behind renamed declarations a renamed name is found in its slot. -/
theorem get?_rename_reserved (slot : UInt16) {typed : List (String × String)}
    (injective : Set.InjOn f {other | other = name ∨ other ∈ typed.map Prod.fst}) :
    (Slots.defineAll ⟨[], slot⟩ k (renameTyped f typed)).get? (f name) =
      ((Slots.defineAll ⟨[], slot⟩ k typed).get? name).map (Variable.rename f) := by
  rw [rename_reserved slot (injective.mono fun _ => .inr)]
  refine get?_rename (injective.mono fun other member => member.imp_right fun known => ?_)
  by_contra unknown
  exact get?_eq_none.1 (get?_defineAll_eq_none.2 unknown) known

end Slots

/-! ### Where a mention stands -/

section

variable {declared : List (String × String)} {m : Mention}

mutual

/-- An expression declares nothing. -/
theorem Expr.declared_mentions : ∀ {e : Expr}, m ∈ e.mentions declared → m.declared = declared
  | .constant .., h | .boolean _, h | .string _, h | .null, h => nomatch h
  | .this _, h | .reference .., h => congrArg Mention.declared (List.mem_singleton.1 h)
  | .binary _ left right _, h =>
    (List.mem_append.1 h).elim Expr.declared_mentions Expr.declared_mentions
  | .unary _ operand, h => by
    rw [Expr.mentions] at h
    exact Expr.declared_mentions h
  | .call _ arguments _, h => by
    rw [Expr.mentions] at h
    exact declared_allMentions h
  | .methodCall receiver _ arguments _, h => by
    have parts : m.declared = declared ∨ m ∈ receiver.mentions declared ∨
        m ∈ allMentions declared arguments := by
      cases receiver with
      | reference name place => exact (List.mem_cons.1 h).imp (congrArg Mention.declared) .inr
      | _ => exact .inr (List.mem_append.1 h)
    obtain here | h | h := parts
    · exact here
    · exact Expr.declared_mentions h
    · exact declared_allMentions h
  | .index target subscript, h =>
    (List.mem_append.1 h).elim Expr.declared_mentions Expr.declared_mentions

theorem declared_allMentions : ∀ {es : List Expr},
    m ∈ allMentions declared es → m.declared = declared
  | [], h => nomatch h
  | _ :: _, h => (List.mem_append.1 h).elim Expr.declared_mentions declared_allMentions

end

theorem Expr.declared_subset {e : Expr} (h : m ∈ e.mentions declared)
    (more : List (String × String)) : m.declared ⊆ declared ++ more :=
  Expr.declared_mentions h ▸ List.subset_append_left ..

mutual

/-- In front of a mention in a statement, no other names are declared than in front of the statement
and in it. -/
theorem Stmt.declared_mentions {declared : List (String × String)} : ∀ {s : Stmt},
    m ∈ s.mentions declared → m.declared ⊆ declared ++ s.locals
  | .declare _, h | .giveBack none _, h => nomatch h
  | .assign name value position, h => by
    obtain h | h := List.mem_append.1 h
    · exact Expr.declared_subset h _
    · obtain rfl := List.mem_singleton.1 h
      exact List.subset_append_left ..
  | .assignElement name subscript value position, h => by
    obtain h | h := List.mem_append.1 h
    · exact Expr.declared_subset h _
    · obtain rfl | h := List.mem_cons.1 h
      · exact List.subset_append_left ..
      · exact Expr.declared_subset h _
  | .ifThen condition body, h | .repeatWhile condition body, h => by
    obtain h | h := List.mem_append.1 h
    · exact Expr.declared_subset h _
    · exact declared_blockMentions h
  | .ifElse condition body alternative, h => by
    rw [Stmt.locals]
    obtain h | h := List.mem_append.1 h
    · obtain h | h := List.mem_append.1 h
      · exact Expr.declared_subset h _
      · rw [← List.append_assoc]
        exact List.subset_append_of_subset_left _ (declared_blockMentions h)
    · rw [← List.append_assoc]
      exact declared_blockMentions h
  | .perform call _, h => Expr.declared_subset h _
  | .giveBack (some value) _, h => Expr.declared_subset h _

theorem declared_blockMentions {declared : List (String × String)} : ∀ {ss : List Stmt},
    m ∈ blockMentions declared ss → m.declared ⊆ declared ++ blockLocals ss
  | [], h => nomatch h
  | s :: ss, h => by
    rw [blockLocals, ← List.append_assoc]
    obtain h | h := List.mem_append.1 h
    · exact List.subset_append_of_subset_left _ (Stmt.declared_mentions h)
    · exact declared_blockMentions h

end

/-- In front of a mention, no other names are declared than the locals of the routine. -/
theorem Routine.declared_mentions {r : Routine} (h : m ∈ r.mentions) :
    m.declared.map Prod.fst ⊆ r.localNames :=
  List.map_subset _ (declared_blockMentions h)

end

/-! ### Renaming the variables of a routine -/

/-- The names of the variables that a routine declares. -/
def Routine.ownNames (r : Routine) : List String := r.parameterNames ++ r.localNames

/-- A renaming of the variables of a routine: other names stay, different variables keep different
names, and no new name is one that the body uses for something else. So names that occur nowhere can
be given to them. -/
structure Routine.Renaming (r : Routine) (f : String → String) : Prop where
  others : ∀ name ∉ r.ownNames, f name = name
  injective : Set.InjOn f {name | name ∈ r.ownNames}
  fresh : ∀ name ∈ r.ownNames, ∀ m ∈ r.mentions, m.use ≠ .this → m.name ∉ r.ownNames →
    f name ≠ m.name

namespace Mention

variable (base base' : Scope) (m : Mention)

/-- The mention stands for a local that is declared in front of it or for a parameter. -/
def IsOwn : Prop :=
  ∃ v, m.resolved base = some v ∧
    (v ∈ ((base.defineLocals m.declared).own.slots .local_).named ∨
      v ∈ ((base.defineLocals m.declared).own.slots .argument).named)

/-- The mention, renamed, stands for the renamed variable. A name that stands for nothing stays. -/
def Kept : Prop :=
  m.use ≠ .this →
    (base'.defineLocals (renameTyped f m.declared)).resolve (f m.name) =
        (m.resolved base).map (Variable.rename f) ∧
      (m.resolved base = none → f m.name = m.name)

end Mention

namespace Routine

variable {f} {r : Routine} {table : Table} {declared : List (String × String)} {name : String}
  {m : Mention}

variable (r table declared)

theorem exists_local (h : name ∈ declared.map Prod.fst) :
    ∃ v, (r.scopeAt table declared).own.get? name .local_ = some v :=
  Option.ne_none_iff_exists'.1 (mt get?_local.1 (not_not.2 h))

theorem exists_argument (h : name ∈ r.parameterNames) :
    ∃ v, (r.scopeAt table declared).own.get? name .argument = some v :=
  Option.ne_none_iff_exists'.1 (mt get?_argument.1 (not_not.2 h))

variable {r table declared}

/-- What a name stands for is renamed with it, if it is a local or a parameter, or if it keeps its
name. -/
theorem resolve_rename (injective : Set.InjOn f {other | other = name ∨ other ∈ r.ownNames})
    (inside : declared.map Prod.fst ⊆ r.localNames)
    (fixed : name ∉ declared.map Prod.fst → name ∉ r.parameterNames → f name = name) :
    ((r.rename f).scopeAt table (renameTyped f declared)).resolve (f name) =
      ((r.scopeAt table declared).resolve name).map (Variable.rename f) := by
  have locals : ((r.rename f).scopeAt table (renameTyped f declared)).own.get? (f name) .local_ =
      ((r.scopeAt table declared).own.get? name .local_).map (Variable.rename f) := by
    rw [Table.get?, Table.get?, scopeAt_locals, scopeAt_locals]
    exact Slots.get?_rename_reserved _ <| injective.mono fun other member =>
      member.imp_right fun known => List.mem_append_right _ (inside known)
  have arguments : ((r.rename f).scopeAt table (renameTyped f declared)).own.get? (f name)
      .argument = ((r.scopeAt table declared).own.get? name .argument).map (Variable.rename f) := by
    have names : (r.parameters.map fun p => (p.name, p.type.name)).map Prod.fst =
        r.parameterNames := List.map_map ..
    have typed : ((r.rename f).parameters.map fun p => (p.name, p.type.name)) =
        renameTyped f (r.parameters.map fun p => (p.name, p.type.name)) := by
      simp [rename, renameTyped, Parameter.rename]
    rw [Table.get?, Table.get?, scopeAt_arguments, scopeAt_arguments, typed]
    refine Slots.get?_rename_reserved _ (injective.mono fun other member => ?_)
    exact member.imp_right fun known => List.mem_append_left _ (names ▸ known)
  rw [Scope.resolve, Scope.resolve, locals, arguments, scopeAt_kind, scopeAt_kind, scopeAt_owner,
    scopeAt_owner, Option.map_or, Option.map_or, Option.map_or]
  by_cases isLocal : name ∈ declared.map Prod.fst
  · obtain ⟨v, found⟩ := r.exists_local table declared isLocal
    rw [found]
    rfl
  by_cases isParameter : name ∈ r.parameterNames
  · obtain ⟨v, found⟩ := r.exists_argument table declared isParameter
    rw [found, get?_local.2 isLocal]
    rfl
  -- a name of the class
  have same := fixed isLocal isParameter
  have kept (k : Storage) : (table.get? name k).map (Variable.rename f) = table.get? name k :=
    Slots.get?_fixed same
  have kind : (r.rename f).kind = r.kind := rfl
  rw [same, get?_local.2 isLocal, get?_argument.2 isParameter, kind,
    apply_ite (Option.map (Variable.rename f)), kept, kept]
  rfl

/-- Which mentions stand for a variable of the routine is read off the declarations. -/
theorem isOwn_iff : m.IsOwn (r.scope table) ↔
    m.name ∈ m.declared.map Prod.fst ∨ m.name ∈ r.parameterNames := by
  constructor
  · rintro ⟨v, hv, stored⟩
    rw [← Scope.name_of_resolve hv]
    refine stored.imp (fun stored => ?_) fun stored => ?_
    · by_contra unknown
      have absent : (r.scopeAt table m.declared).own.get? v.name .local_ = none :=
        get?_local.2 unknown
      exact Slots.get?_eq_none.1 absent (List.mem_map_of_mem stored)
    · by_contra unknown
      have absent : (r.scopeAt table m.declared).own.get? v.name .argument = none :=
        get?_argument.2 unknown
      exact Slots.get?_eq_none.1 absent (List.mem_map_of_mem stored)
  · intro own
    by_cases isLocal : m.name ∈ m.declared.map Prod.fst
    · obtain ⟨v, found⟩ := r.exists_local table m.declared isLocal
      refine ⟨v, ?_, .inl (Slots.mem_of_get? found)⟩
      change (r.scopeAt table m.declared).resolve m.name = some v
      rw [Scope.resolve, found]
      rfl
    · obtain ⟨v, found⟩ := r.exists_argument table m.declared (own.resolve_left isLocal)
      refine ⟨v, ?_, .inr (Slots.mem_of_get? found)⟩
      change (r.scopeAt table m.declared).resolve m.name = some v
      rw [Scope.resolve, get?_local.2 isLocal, found]
      rfl

namespace Renaming

variable (h : r.Renaming f) (hm : m ∈ r.mentions)
include h hm

theorem injOn (use : m.use ≠ .this) :
    Set.InjOn f {other | other = m.name ∨ other ∈ r.ownNames} := by
  by_cases mine : m.name ∈ r.ownNames
  · exact h.injective.mono fun other member => member.elim (· ▸ mine) id
  -- a new name is none that the body uses for something else
  have apart : ∀ name ∈ r.ownNames, f name ≠ f m.name := fun name own => by
    rw [h.others _ mine]
    exact h.fresh name own m hm use mine
  rintro a (rfl | ha) b (rfl | hb) same
  · rfl
  · exact absurd same.symm (apart b hb)
  · exact absurd same (apart a ha)
  · exact h.injective ha hb same

omit hm in
/-- As many locals are declared. -/
theorem localCount (table : Table) :
    ((r.rename f).scopeAt table (renameTyped f (blockLocals r.body))).localCount =
      (r.scopeAt table (blockLocals r.body)).localCount := by
  rw [Scope.localCount, Scope.localCount, Table.count, Table.count, scopeAt_locals, scopeAt_locals,
    Slots.rename_reserved]
  · rfl
  · exact h.injective.mono fun _ => List.mem_append_right _

/-- Where the variables that are renamed are those of the routine, what is mentioned is kept. -/
theorem kept (own : m.use ≠ .this → m.name ∈ r.ownNames → m.IsOwn (r.scope table)) :
    m.Kept f (r.scope table) ((r.rename f).scope table) := by
  refine fun use => ⟨resolve_rename (h.injOn hm use) (declared_mentions hm) ?_, fun nothing => ?_⟩
  · intro notLocal notParameter
    refine h.others _ fun mine => ?_
    exact (isOwn_iff.1 (own use mine)).elim notLocal notParameter
  · refine h.others _ fun mine => ?_
    obtain ⟨v, hv, -⟩ := own use mine
    cases nothing.symm.trans hv

end Renaming

end Routine

end JackCompiler
