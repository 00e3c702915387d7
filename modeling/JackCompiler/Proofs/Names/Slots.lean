import JackCompiler.Names.Table
import Mathlib.Data.Finset.Card
/-!
# Slots are dense

Slots are handed out one after the other, the first behind those that are reserved, and a name that
has a slot takes no other. So as long as the slots can be counted by a word, every slot is below the
number of slots taken, and that number is the number of different names and of the slots reserved.

        reserved  |  a  b  (a)  c  (b)  d      four names, four slots
-/

namespace JackCompiler

/-- The number of different names. -/
def distinctNames (names : List String) : Nat := names.dedup.length

theorem distinctNames_eq_card (names : List String) :
    distinctNames names = names.toFinset.card := (List.card_toFinset names).symm

/-- A list with a name is cut in front of the first place of that name. -/
theorem exists_first {names : List String} {name : String} (h : name ∈ names) :
    ∃ front behind, names = front ++ name :: behind ∧ name ∉ front ∧
      names.takeWhile (· ≠ name) = front := by
  obtain ⟨front, behind, rfl, others⟩ := List.eq_append_cons_of_mem h
  refine ⟨front, behind, rfl, others, ?_⟩
  rw [List.takeWhile_append_of_pos fun other member => by
      simpa using ne_of_mem_of_not_mem member others, List.takeWhile_cons_of_neg (by simp),
    List.append_nil]

/-- The different names in front of one that stands at a place are at most as many as the place
counts, and exactly as many if up to there no name is repeated. -/
theorem distinctNames_takeWhile {names : List String} {name : String} {k : Nat}
    (h : names[k]? = some name) :
    distinctNames (names.takeWhile (· ≠ name)) ≤ k ∧
      (distinctNames (names.takeWhile (· ≠ name)) = k ↔ (names.take (k + 1)).Nodup) := by
  obtain ⟨front, behind, rfl, others, first⟩ := exists_first (List.mem_of_getElem? h)
  rw [first]
  have short : distinctNames front ≤ front.length := (List.dedup_sublist front).length_le
  have before : front.length ≤ k := by
    by_contra inside
    rw [List.getElem?_append_left (by omega)] at h
    exact others (List.mem_of_getElem? h)
  refine ⟨short.trans before, ?_⟩
  rcases before.eq_or_lt with rfl | later
  · rw [show (front ++ name :: behind).take (front.length + 1) = front ++ [name] by
      simp [List.take_append], List.nodup_append_comm, List.singleton_append, List.nodup_cons,
      and_iff_right others]
    constructor
    · intro all
      have same : front.dedup = front := (List.dedup_sublist front).eq_of_length all
      exact same ▸ front.nodup_dedup
    · intro distinct
      rw [distinctNames, distinct.dedup]
  · -- the name stands at its first place and here
    refine iff_of_false (by omega) fun distinct => ?_
    have first : ((front ++ name :: behind).take (k + 1))[front.length]? = some name := by
      rw [List.getElem?_take_of_lt (by omega), List.getElem?_append_right le_rfl, Nat.sub_self]
      rfl
    have here : ((front ++ name :: behind).take (k + 1))[k]? = some name := by
      rw [List.getElem?_take_of_lt (by omega), h]
    obtain ⟨inside, -⟩ := List.getElem?_eq_some_iff.1 first
    exact absurd ((List.getElem?_inj inside distinct).1 (first.trans here.symm)) (by omega)

namespace Slots

variable {s : Slots} {storage : Storage} {name typeName : String} {reserved : Nat} {v : Variable}

/-- The names that have a slot. -/
def names (s : Slots) : List String := s.named.map (·.name)

/-! ### Defining a name -/

theorem get?_eq_none : s.get? name = none ↔ name ∉ s.names := by
  simp [get?, names]

theorem mem_of_get? (h : s.get? name = some v) : v ∈ s.named := List.mem_of_find?_eq_some h

theorem name_of_get? (h : s.get? name = some v) : v.name = name := by
  simpa using List.find?_some h

/-- A name that has a slot changes nothing. -/
theorem define_known (h : name ∈ s.names) : (s.define storage name typeName).2 = s := by
  unfold define
  split
  · rfl
  · next none => exact absurd h (get?_eq_none.1 none)

/-- Another name takes the next slot. -/
theorem define_new (h : name ∉ s.names) : (s.define storage name typeName).2 =
    ⟨⟨name, storage, s.taken, typeName⟩ :: s.named, s.taken + 1⟩ := by
  rw [define, get?_eq_none.2 h]

theorem named_subset_define : s.named ⊆ (s.define storage name typeName).2.named := by
  by_cases h : name ∈ s.names
  · rw [define_known h]
    exact List.Subset.refl _
  · rw [define_new h]
    exact List.subset_cons_self _ _

theorem names_define : (s.define storage name typeName).2.names.toFinset =
    insert name s.names.toFinset := by
  by_cases h : name ∈ s.names
  · rw [define_known h, Finset.insert_eq_of_mem (List.mem_toFinset.2 h)]
  · rw [define_new h]
    simp [names]

theorem mem_names_define {other : String} :
    other ∈ (s.define storage name typeName).2.names ↔ other = name ∨ other ∈ s.names := by
  rw [← List.mem_toFinset, names_define]
  simp

/-! ### Dense slots -/

/-- Behind the reserved slots there is one for each name, all below the number of slots taken. -/
structure Dense (s : Slots) (storage : Storage) (reserved : Nat) : Prop where
  stored : ∀ v ∈ s.named, v.storage = storage
  below : ∀ v ∈ s.named, v.slot.toNat < s.taken.toNat
  distinct : s.names.Nodup
  count : s.taken.toNat = reserved + s.names.length

/-- Reserved slots, and no others. -/
theorem dense_reserved (storage : Storage) {reserved : Nat} (h : reserved < 65536) :
    Dense ⟨[], UInt16.ofNat reserved⟩ storage reserved :=
  ⟨by simp, by simp, List.nodup_nil, UInt16.toNat_ofNat_of_lt' h⟩

theorem Dense.taken_eq (h : s.Dense storage reserved) :
    s.taken.toNat = reserved + s.names.toFinset.card := by
  rw [h.count, List.toFinset_card_of_nodup h.distinct]

/-- Slots stay dense as long as they can be counted. -/
theorem Dense.define (h : s.Dense storage reserved)
    (room : reserved + (insert name s.names.toFinset).card < 65536) :
    (s.define storage name typeName).2.Dense storage reserved := by
  by_cases known : name ∈ s.names
  · rwa [define_known known]
  · have card : (insert name s.names.toFinset).card = s.names.length + 1 := by
      rw [Finset.card_insert_of_notMem (by simpa using known),
        List.toFinset_card_of_nodup h.distinct]
    have count := h.count
    have next : (s.taken + 1).toNat = s.taken.toNat + 1 := by
      rw [UInt16.toNat_add, UInt16.toNat_one]
      omega
    rw [define_new known]
    refine ⟨List.forall_mem_cons.2 ⟨rfl, h.stored⟩, List.forall_mem_cons.2 ⟨?_, fun v hv => ?_⟩,
      List.nodup_cons.2 ⟨known, h.distinct⟩, ?_⟩
    · change s.taken.toNat < (s.taken + 1).toNat
      omega
    · have := h.below v hv
      change v.slot.toNat < (s.taken + 1).toNat
      omega
    · change (s.taken + 1).toNat = reserved + (s.names.length + 1)
      omega

/-! ### Defining names in order -/

/-- Names that are defined in order, each with the name of its type. -/
def defineAll (s : Slots) (storage : Storage) (typed : List (String × String)) : Slots :=
  typed.foldl (fun s d => (s.define storage d.1 d.2).2) s

@[simp] theorem defineAll_nil : s.defineAll storage [] = s := rfl

@[simp] theorem defineAll_cons (d : String × String) (typed : List (String × String)) :
    s.defineAll storage (d :: typed) = (s.define storage d.1 d.2).2.defineAll storage typed := rfl

theorem defineAll_append (typed more : List (String × String)) :
    s.defineAll storage (typed ++ more) = (s.defineAll storage typed).defineAll storage more := by
  simp [defineAll]

theorem named_subset_defineAll (typed : List (String × String)) :
    s.named ⊆ (s.defineAll storage typed).named := by
  induction typed generalizing s with
  | nil => exact List.Subset.refl _
  | cons d typed ih => exact List.Subset.trans named_subset_define ih

theorem names_defineAll (typed : List (String × String)) :
    (s.defineAll storage typed).names.toFinset =
      (typed.map Prod.fst).toFinset ∪ s.names.toFinset := by
  induction typed generalizing s with
  | nil => simp
  | cons d typed ih =>
    rw [defineAll_cons, ih, names_define]
    simp

theorem Dense.defineAll (h : s.Dense storage reserved) {typed : List (String × String)}
    (room : reserved + ((typed.map Prod.fst).toFinset ∪ s.names.toFinset).card < 65536) :
    (s.defineAll storage typed).Dense storage reserved := by
  induction typed generalizing s with
  | nil => exact h
  | cons d typed ih =>
    have same : ((d :: typed).map Prod.fst).toFinset ∪ s.names.toFinset =
        (typed.map Prod.fst).toFinset ∪ insert d.1 s.names.toFinset := by simp
    rw [same] at room
    have one : (insert d.1 s.names.toFinset).card ≤
        ((typed.map Prod.fst).toFinset ∪ insert d.1 s.names.toFinset).card :=
      Finset.card_le_card Finset.subset_union_right
    refine ih (h.define (by omega)) ?_
    rwa [names_define]

/-- Behind reserved slots, names take as many slots as they are. -/
theorem defineAll_reserved (storage : Storage) (reserved : Nat) (typed : List (String × String))
    (room : reserved + distinctNames (typed.map Prod.fst) < 65536) :
    let s := Slots.defineAll ⟨[], UInt16.ofNat reserved⟩ storage typed
    s.Dense storage reserved ∧ s.taken.toNat = reserved + distinctNames (typed.map Prod.fst) := by
  intro s
  rw [distinctNames_eq_card] at room ⊢
  have start : Dense ⟨[], UInt16.ofNat reserved⟩ storage reserved :=
    dense_reserved storage (by omega)
  have dense : s.Dense storage reserved := start.defineAll (by simpa [names] using room)
  refine ⟨dense, ?_⟩
  rw [dense.taken_eq, names_defineAll]
  simp [names]

/-! ### The slot of a name -/

/-- A name that has a slot keeps it. -/
theorem get?_define (h : s.get? name = some v) (other : String) :
    (s.define storage other typeName).2.get? name = some v := by
  by_cases known : other ∈ s.names
  · rwa [define_known known]
  · have different : other ≠ name := by
      rintro rfl
      rw [get?_eq_none.2 known] at h
      cases h
    rw [define_new known, get?, List.find?_cons_of_neg (by simpa using different)]
    exact h

theorem get?_defineAll (h : s.get? name = some v) (typed : List (String × String)) :
    (s.defineAll storage typed).get? name = some v := by
  induction typed generalizing s with
  | nil => exact h
  | cons d typed ih => exact ih (get?_define h d.1)

/-- Each new name takes one slot more. -/
theorem taken_defineAll (typed : List (String × String)) : (s.defineAll storage typed).taken =
    s.taken + UInt16.ofNat ((typed.map Prod.fst).toFinset \ s.names.toFinset).card := by
  induction typed generalizing s with
  | nil => simp
  | cons d typed ih =>
    rw [defineAll_cons, ih, names_define, List.map_cons, List.toFinset_cons]
    by_cases known : d.1 ∈ s.names
    · have member : d.1 ∈ s.names.toFinset := List.mem_toFinset.2 known
      rw [define_known known, Finset.insert_eq_of_mem member, Finset.insert_sdiff_of_mem _ member]
    · have one : insert d.1 (typed.map Prod.fst).toFinset \ s.names.toFinset =
          insert d.1 ((typed.map Prod.fst).toFinset \ insert d.1 s.names.toFinset) := by
        ext name
        by_cases same : name = d.1 <;> simp [same, known]
      rw [define_new known, one, Finset.card_insert_of_notMem (by simp), UInt16.ofNat_add]
      change s.taken + 1 + _ = _
      rw [UInt16.add_assoc, UInt16.add_comm 1]
      rfl

/-- Behind reserved slots, a name takes the slot that the different names in front of its first
declaration leave. -/
theorem get?_defineAll_reserved (storage : Storage) (reserved : Nat)
    {typed : List (String × String)} (h : name ∈ typed.map Prod.fst) :
    ∃ typeName, (Slots.defineAll ⟨[], UInt16.ofNat reserved⟩ storage typed).get? name =
      some ⟨name, storage, UInt16.ofNat
        (reserved + distinctNames ((typed.map Prod.fst).takeWhile (· ≠ name))), typeName⟩ := by
  obtain ⟨names, rest, split, others, first⟩ := exists_first h
  obtain ⟨front, tail, rfl, rfl, ht⟩ := List.map_eq_append_iff.1 split
  obtain ⟨d, behind, rfl, rfl, rfl⟩ := List.map_eq_cons_iff.1 ht
  refine ⟨d.2, ?_⟩
  rw [first, defineAll_append, defineAll_cons]
  set s := Slots.defineAll ⟨[], UInt16.ofNat reserved⟩ storage front with hs
  have new : d.1 ∉ s.names := by
    rw [← List.mem_toFinset, hs, names_defineAll]
    simpa [names] using others
  have taken : s.taken = UInt16.ofNat (reserved + distinctNames (front.map Prod.fst)) := by
    rw [hs, taken_defineAll, distinctNames_eq_card, UInt16.ofNat_add]
    simp [names]
  refine get?_defineAll ?_ behind
  rw [define_new new, get?, List.find?_cons_of_pos (by simp), taken]

end Slots

end JackCompiler
