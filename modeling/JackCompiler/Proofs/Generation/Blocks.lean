import JackCompiler.Proofs.Generation.Frames
import JackCompiler.Proofs.Generation.Routines
/-!
# Routines are generated by themselves

The code of a class is one block for each of its routines, in their order. A block is made from the
name of the class, its static declarations, its field declarations and the routine, and from nothing
else: the table of a class is complete before the first body is read, it is the same wherever the
declarations stand, and no label, local or instruction goes from one routine to the next. So where
declarations move the code stays, and where routines change places their blocks do.

        field x   f   static y   g   ──▶   block f  block g
        g   field x   static y   f   ──▶   block g  block f
-/

namespace JackCompiler

/-! ### The table of a class -/

/-- The table of some static and field declarations. -/
def Table.ofDeclarations (statics fields : List Declaration) : Table :=
  (statics.map Member.shared ++ fields.map Member.perObject).foldl Table.declareMember .empty

theorem Table.ext_slots {t t' : Table} (h : ∀ k, t.slots k = t'.slots k) : t = t' := by
  obtain ⟨statics, fields, arguments, locals⟩ := t
  obtain ⟨statics', fields', arguments', locals'⟩ := t'
  obtain rfl : statics = statics' := h .static
  obtain rfl : fields = fields' := h .field
  obtain rfl : arguments = arguments' := h .argument
  obtain rfl : locals = locals' := h .local_
  rfl

/-- What a class declares for a kind of storage stands in its declarations of that kind. -/
theorem ClassTree.typed_members (c : ClassTree) (k : Storage) : c.members.flatMap (·.typed k) =
    (c.statics.map Member.shared ++ c.fields.map Member.perObject).flatMap (·.typed k) := by
  have nothing (ds : List Declaration) : ds.flatMap (fun _ => ([] : List (String × String))) = [] :=
    List.flatMap_eq_nil_iff.2 fun _ _ => rfl
  rw [List.flatMap_append, List.flatMap_map, List.flatMap_map, statics, fields]
  induction c.members with
  | nil => rfl
  | cons m members ih =>
    rw [List.flatMap_cons, ih]
    cases m <;> cases k <;> simp [Member.typed, nothing]

/-- The table of a class is that of its declarations, wherever these stand. -/
theorem ClassTree.table_eq (c : ClassTree) : c.table = .ofDeclarations c.statics c.fields := by
  refine Table.ext_slots fun k => ?_
  rw [table_slots, Table.ofDeclarations, Table.slots_declareMembers, typed_members]
  cases k <;> rfl

/-! ### Blocks -/

/-- The code of a routine, for a class of this name with these static and field declarations. A
routine that is refused has none. -/
def Routine.block (className : String) (statics fields : List Declaration) (r : Routine) :
    List Instruction :=
  match r.code className (.ofDeclarations statics fields) with
  | .ok code => code
  | .error _ => []

/-- A class is accepted exactly if its routines are, and then its chunk are their blocks. -/
theorem ClassTree.chunk_eq_ok {c : ClassTree} {chunk : Chunk} : c.chunk = .ok chunk ↔
    (∀ r ∈ c.routines, ∃ code, r.code c.name c.table = .ok code) ∧
      chunk = ⟨c.routines.flatMap (·.block c.name c.statics c.fields)⟩ := by
  have accepted (all : ∀ r ∈ c.routines, ∃ code, r.code c.name c.table = .ok code) :
      c.chunk = .ok ⟨c.routines.flatMap (·.block c.name c.statics c.fields)⟩ := by
    rw [List.flatMap_def]
    refine chunk_of_codes (List.forall₂_map_right_iff.2 (List.forall₂_same.2 fun r hr => ?_))
    obtain ⟨code, made⟩ := all r hr
    rw [Routine.block, ← c.table_eq, made]
  constructor
  · intro h
    have all : ∀ r ∈ c.routines, ∃ code, r.code c.name c.table = .ok code := by
      intro r hr
      obtain ⟨code, -, made⟩ := exists_mem_of_forall₂ (chunk_routines h).flip hr
      exact ⟨code, made⟩
    exact ⟨all, Except.ok.inj (h.symm.trans (accepted all))⟩
  · rintro ⟨all, rfl⟩
    exact accepted all

/-- The block of a routine that is accepted opens with its only directive, which names it. -/
theorem Routine.block_opens {c : ClassTree} {r : Routine}
    (h : ∃ code, r.code c.name c.table = .ok code) :
    ∃ count body, r.block c.name c.statics c.fields =
      .function (qualified c.name r.name) count :: body ∧ NoDirective body := by
  obtain ⟨code, made⟩ := h
  have same : r.block c.name c.statics c.fields = code := by
    rw [block, ← c.table_eq, made]
  obtain ⟨body, f, -, rfl⟩ := code_eq_ok made
  obtain ⟨name, count, rest, split, alone⟩ := (code_isRoutine made).opens
  cases split
  exact ⟨_, _, same, alone⟩

/-- **Routines are generated by themselves and in order.** The chunk of a class that is accepted is
made of one block for each routine, which opens with the only directive in it, and the blocks are
read off the name of the class, its static and its field declarations. In a class that is the same
in these, but has its declarations elsewhere among the routines, the chunk is the same; and where
the routines stand in another order, so do their blocks. -/
theorem ClassTree.chunk_blocks {c : ClassTree} {chunk : Chunk} (h : c.chunk = .ok chunk) :
    chunk = ⟨c.routines.flatMap (·.block c.name c.statics c.fields)⟩ ∧
    (∀ r ∈ c.routines, ∃ count body, r.block c.name c.statics c.fields =
      .function (qualified c.name r.name) count :: body ∧ NoDirective body) ∧
    ∀ d : ClassTree, d.name = c.name → d.statics = c.statics → d.fields = c.fields →
      (d.routines = c.routines → d.chunk = .ok chunk) ∧
      (d.routines.Perm c.routines →
        d.chunk = .ok ⟨d.routines.flatMap (·.block c.name c.statics c.fields)⟩) := by
  obtain ⟨all, blocks⟩ := chunk_eq_ok.1 h
  refine ⟨blocks, fun r hr => Routine.block_opens (all r hr), fun d name statics fields => ?_⟩
  have same : d.table = c.table := by rw [d.table_eq, c.table_eq, statics, fields]
  have permuted (perm : d.routines.Perm c.routines) :
      d.chunk = .ok ⟨d.routines.flatMap (·.block c.name c.statics c.fields)⟩ := by
    refine chunk_eq_ok.2 ⟨fun r hr => ?_, by rw [name, statics, fields]⟩
    rw [name, same]
    exact all r (perm.mem_iff.1 hr)
  refine ⟨fun routines => ?_, permuted⟩
  rw [permuted (.of_eq routines), routines, blocks]

/-- The class `Point` with its routines turned round and its declarations behind them. -/
def turnedPoint : ClassTree where
  name := "Point"
  members := point.routines.reverse.map Member.routine ++
    (point.fields.map Member.perObject ++ point.statics.map Member.shared)
  position := none

/-- Two orders of the members of one class. -/
theorem turnedPoint_blocks : ∃ chunk, point.chunk = .ok chunk ∧
    turnedPoint.name = point.name ∧ turnedPoint.statics = point.statics ∧
    turnedPoint.fields = point.fields ∧ turnedPoint.routines.Perm point.routines ∧
    turnedPoint.chunk =
      .ok ⟨turnedPoint.routines.flatMap (·.block point.name point.statics point.fields)⟩ := by
  have h : point.chunk = .ok _ := rfl
  have perm : turnedPoint.routines.Perm point.routines := point.routines.reverse_perm
  exact ⟨_, h, rfl, rfl, rfl, perm,
    ((ClassTree.chunk_blocks h).2.2 turnedPoint rfl rfl rfl).2 perm⟩

end JackCompiler
