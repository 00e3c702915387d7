import JackCompiler.Proofs.Names.Declarations
/-!
# Slots in the order of requests

A table is asked for slots one after the other, some of them for names and some for nobody. Each
kind of storage counts for itself: its slots are 0, 1, 2, … in the order in which they are first
asked for, and a name asked for again is the variable that it was. So no two names of a scope share
a place, and no name of a method has the place of its object.

        requests    argument a   –   local x   argument b   argument a   local y
        slot             0       1      0           2            0          1
-/

namespace JackCompiler

/-! ### Requests -/

/-- What a table can be asked for: a variable, or a slot for nobody. -/
inductive SlotRequest
  | define (name : String) (storage : Storage) (typeName : String)
  | reserve (storage : Storage)
  deriving DecidableEq, Repr

namespace SlotRequest

/-- The kind of storage that is asked. -/
def storage : SlotRequest → Storage
  | define _ k _ => k
  | reserve k => k

/-- The name that is to be stored in this way. -/
def name? (k : Storage) : SlotRequest → Option String
  | define name j _ => if j = k then some name else none
  | reserve _ => none

end SlotRequest

/-- The names asked for in one kind of storage. -/
def namesAsked (k : Storage) (requests : List SlotRequest) : List String :=
  requests.filterMap (·.name? k)

/-- The slots that requests take in one kind of storage: those for nobody, and one for each name. -/
def slotsTaken (k : Storage) (requests : List SlotRequest) : Nat :=
  requests.count (.reserve k) + distinctNames (namesAsked k requests)

/-- Behind the earlier requests, a slot is asked for the first time: for nobody, or for a name that
has none in this kind of storage. -/
def SlotRequest.First (earlier : List SlotRequest) : SlotRequest → Prop
  | define name k _ => name ∉ namesAsked k earlier
  | reserve _ => True

open SlotRequest (First)

instance (earlier : List SlotRequest) : (r : SlotRequest) → Decidable (First earlier r)
  | .define name k _ => inferInstanceAs (Decidable (name ∉ namesAsked k earlier))
  | .reserve _ => inferInstanceAs (Decidable True)

theorem namesAsked_append (k : Storage) (requests more : List SlotRequest) :
    namesAsked k (requests ++ more) = namesAsked k requests ++ namesAsked k more :=
  List.filterMap_append

@[simp] theorem namesAsked_define (name : String) (k : Storage) (typeName : String) :
    namesAsked k [.define name k typeName] = [name] := List.filterMap_cons_some (if_pos rfl)

@[simp] theorem namesAsked_reserve (k j : Storage) : namesAsked k [.reserve j] = [] := rfl

theorem namesAsked_of_ne {k : Storage} {r : SlotRequest} (h : r.storage ≠ k) :
    namesAsked k [r] = [] := by
  cases r with
  | define name j typeName => exact List.filterMap_cons_none (if_neg h)
  | reserve j => rfl

/-- More requests take no fewer slots. -/
theorem slotsTaken_le_append (k : Storage) (requests more : List SlotRequest) :
    slotsTaken k requests ≤ slotsTaken k (requests ++ more) := by
  rw [slotsTaken, slotsTaken, List.count_append, namesAsked_append, distinctNames_eq_card,
    distinctNames_eq_card, List.toFinset_append]
  have names : (namesAsked k requests).toFinset.card ≤
      ((namesAsked k requests).toFinset ∪ (namesAsked k more).toFinset).card :=
    Finset.card_le_card Finset.subset_union_left
  omega

/-- A request of another kind of storage takes no slot. -/
theorem slotsTaken_concat_of_ne {k : Storage} {r : SlotRequest} (h : r.storage ≠ k)
    (requests : List SlotRequest) : slotsTaken k (requests ++ [r]) = slotsTaken k requests := by
  have other : r ≠ .reserve k := fun same => h (by rw [same, SlotRequest.storage])
  rw [slotsTaken, slotsTaken, namesAsked_append, namesAsked_of_ne h, List.append_nil,
    List.count_append, List.count_singleton, beq_false_of_ne other, if_neg Bool.false_ne_true,
    Nat.add_zero]

/-- A name takes a slot if it has none. -/
theorem slotsTaken_concat_define (requests : List SlotRequest) (name : String) (k : Storage)
    (typeName : String) : slotsTaken k (requests ++ [.define name k typeName]) =
      requests.count (.reserve k) + (insert name (namesAsked k requests).toFinset).card := by
  have unreserved : [SlotRequest.define name k typeName].count (.reserve k) = 0 := rfl
  rw [slotsTaken, namesAsked_append, namesAsked_define, List.count_append, unreserved,
    distinctNames_eq_card, List.toFinset_append, List.toFinset_cons, List.toFinset_nil,
    insert_empty_eq, Finset.union_comm, ← Finset.insert_eq, Nat.add_zero]

/-- The first request for a slot takes one. -/
theorem slotsTaken_concat_of_first {requests : List SlotRequest} {r : SlotRequest}
    (h : First requests r) :
    slotsTaken r.storage (requests ++ [r]) = slotsTaken r.storage requests + 1 := by
  cases r with
  | define name k typeName =>
    have new : name ∉ namesAsked k requests := h
    rw [SlotRequest.storage, slotsTaken_concat_define, slotsTaken, distinctNames_eq_card,
      Finset.card_insert_of_notMem (by simpa using new), Nat.add_assoc]
  | reserve k =>
    rw [SlotRequest.storage, slotsTaken, slotsTaken, namesAsked_append, namesAsked_reserve,
      List.append_nil, List.count_append, List.count_singleton_self, Nat.add_right_comm]

/-- A name asked for again takes no slot. -/
theorem slotsTaken_concat_of_known {requests : List SlotRequest} {name : String} {k : Storage}
    (typeName : String) (h : name ∈ namesAsked k requests) :
    slotsTaken k (requests ++ [.define name k typeName]) = slotsTaken k requests := by
  rw [slotsTaken_concat_define, Finset.insert_eq_of_mem (by simpa using h), slotsTaken,
    distinctNames_eq_card]

/-- What stands further in front is behind fewer slots. -/
theorem slotsTaken_lt {k : Storage} {front back : List SlotRequest} {r : SlotRequest}
    (h : First front r) (stored : r.storage = k) :
    slotsTaken k front < slotsTaken k (front ++ r :: back) := by
  subst stored
  have one := slotsTaken_concat_of_first h
  have more := slotsTaken_le_append r.storage (front ++ [r]) back
  rw [List.append_assoc, List.singleton_append] at more
  omega

/-! ### Tables that are asked -/

/-- A name that has been asked for is found. -/
theorem Slots.get?_define_self (s : Slots) (k : Storage) (name typeName : String) :
    (s.define k name typeName).2.get? name = some (s.define k name typeName).1 := by
  cases found : s.get? name with
  | some v =>
    rw [define, found]
    exact found
  | none =>
    rw [define, found, get?, List.find?_cons_of_pos (by simp)]

namespace Table

/-- The slot that a request is given, and the table behind it. -/
def serve (t : Table) : SlotRequest → UInt16 × Table
  | .define name k typeName =>
    ((t.define name k typeName).1.slot, (t.define name k typeName).2)
  | .reserve k => t.reserve k

/-- The table behind requests. -/
def serveAll (t : Table) (requests : List SlotRequest) : Table :=
  requests.foldl (fun t r => (t.serve r).2) t

@[simp] theorem serveAll_nil (t : Table) : t.serveAll [] = t := rfl

theorem serveAll_append (t : Table) (requests more : List SlotRequest) :
    t.serveAll (requests ++ more) = (t.serveAll requests).serveAll more := List.foldl_append

@[simp] theorem serveAll_singleton (t : Table) (r : SlotRequest) :
    t.serveAll [r] = (t.serve r).2 := rfl

/-- Other kinds of storage are not concerned. -/
theorem slots_serve_of_ne (t : Table) {r : SlotRequest} {k : Storage} (h : k ≠ r.storage) :
    (t.serve r).2.slots k = t.slots k := by
  cases r with
  | define name j typeName => exact slots_setSlots_of_ne t _ h
  | reserve j => exact slots_setSlots_of_ne t _ h

theorem slots_serve_define (t : Table) (name : String) (k : Storage) (typeName : String) :
    (t.serve (.define name k typeName)).2.slots k = ((t.slots k).define k name typeName).2 :=
  slots_setSlots_self t _ k

theorem slots_serve_reserve (t : Table) (k : Storage) :
    (t.serve (.reserve k)).2.slots k = (t.slots k).reserve.2 := slots_setSlots_self t _ k

end Table

/-- What the requests have left in one kind of storage: the number of slots that they take, the
names that they ask for, and for each name the slot behind those taken in front of its first
request. -/
structure Slots.Allotted (s : Slots) (k : Storage) (requests : List SlotRequest) : Prop where
  taken : s.taken.toNat = slotsTaken k requests
  names : ∀ name, name ∈ s.names ↔ name ∈ namesAsked k requests
  origin : ∀ v ∈ s.named, ∃ front back,
    requests = front ++ .define v.name k v.typeName :: back ∧
      First front (.define v.name k v.typeName) ∧ v.storage = k ∧
      v.slot.toNat = slotsTaken k front

namespace Slots.Allotted

variable {s : Slots} {k : Storage} {requests : List SlotRequest} {r : SlotRequest}
  {v w : Variable}

theorem empty (k : Storage) : Slots.empty.Allotted k [] :=
  ⟨rfl, fun _ => Iff.rfl, fun _ member => absurd member List.not_mem_nil⟩

/-- A request that changes nothing here leaves the slots as they are. -/
theorem unchanged (h : s.Allotted k requests)
    (taken : slotsTaken k (requests ++ [r]) = slotsTaken k requests)
    (names : ∀ name, name ∈ namesAsked k (requests ++ [r]) ↔ name ∈ namesAsked k requests) :
    s.Allotted k (requests ++ [r]) := by
  refine ⟨h.taken.trans taken.symm, fun name => (h.names name).trans (names name).symm, ?_⟩
  intro v member
  obtain ⟨front, back, rfl, origin⟩ := h.origin v member
  exact ⟨front, back ++ [r], by simp, origin⟩

theorem other (h : s.Allotted k requests) (ne : r.storage ≠ k) :
    s.Allotted k (requests ++ [r]) := by
  refine h.unchanged (slotsTaken_concat_of_ne ne requests) fun name => ?_
  rw [namesAsked_append, namesAsked_of_ne ne, List.append_nil]

/-- One slot more can be counted. -/
theorem taken_succ (h : s.Allotted k requests) (room : slotsTaken k requests + 1 < 65536) :
    (s.taken + 1).toNat = slotsTaken k requests + 1 := by
  have taken := h.taken
  rw [UInt16.toNat_add, UInt16.toNat_one]
  omega

theorem reserve (h : s.Allotted k requests) (room : slotsTaken k requests + 1 < 65536) :
    s.reserve.2.Allotted k (requests ++ [.reserve k]) := by
  have one : slotsTaken k (requests ++ [.reserve k]) = slotsTaken k requests + 1 :=
    slotsTaken_concat_of_first (r := .reserve k) trivial
  refine ⟨(h.taken_succ room).trans one.symm, fun name => ?_, fun v member => ?_⟩
  · rw [namesAsked_append, namesAsked_reserve, List.append_nil]
    exact h.names name
  · obtain ⟨front, back, rfl, origin⟩ := h.origin v member
    exact ⟨front, back ++ [.reserve k], by simp, origin⟩

theorem define (h : s.Allotted k requests) {name typeName : String}
    (room : slotsTaken k (requests ++ [.define name k typeName]) < 65536) :
    (s.define k name typeName).2.Allotted k (requests ++ [.define name k typeName]) := by
  have asked (other : String) : other ∈ namesAsked k (requests ++ [.define name k typeName]) ↔
      other = name ∨ other ∈ namesAsked k requests := by
    rw [namesAsked_append, namesAsked_define, List.mem_append, or_comm, List.mem_singleton]
  by_cases known : name ∈ s.names
  · rw [define_known known]
    have before := (h.names name).1 known
    refine h.unchanged (slotsTaken_concat_of_known typeName before) fun other => ?_
    rw [asked, or_iff_right_iff_imp]
    rintro rfl
    exact before
  · have first : First requests (.define name k typeName) :=
      fun before => known ((h.names name).2 before)
    have one := slotsTaken_concat_of_first first
    rw [SlotRequest.storage] at one
    rw [one] at room
    refine ⟨?_, fun other => ?_, fun v member => ?_⟩
    · rw [define_new known, one]
      exact h.taken_succ room
    · rw [mem_names_define, asked, h.names]
    · rw [define_new known] at member
      rcases List.mem_cons.1 member with rfl | member
      · exact ⟨requests, [], rfl, first, rfl, h.taken⟩
      · obtain ⟨front, back, rfl, origin⟩ := h.origin v member
        exact ⟨front, back ++ [.define name k typeName], by simp, origin⟩

/-- Of two names the one that is asked for later has the higher slot. -/
theorem slot_ne (h : s.Allotted k requests) (hv : v ∈ s.named) (hw : w ∈ s.named)
    (ne : v.name ≠ w.name) : v.slot ≠ w.slot := by
  obtain ⟨front, back, rfl, first, -, slot⟩ := h.origin v hv
  obtain ⟨front', back', same, first', -, slot'⟩ := h.origin w hw
  suffices v.slot.toNat ≠ w.slot.toNat from fun equal => this (congrArg UInt16.toNat equal)
  rw [slot, slot']
  rcases List.append_eq_append_iff.1 same with ⟨between, rfl, rest⟩ | ⟨between, rfl, rest⟩
  · cases between with
    | nil =>
      have names := (List.cons.inj rest).1
      injection names
      contradiction
    | cons r between =>
      obtain ⟨rfl, -⟩ := List.cons.inj rest
      exact (slotsTaken_lt first rfl).ne
  · cases between with
    | nil =>
      have names := (List.cons.inj rest).1
      injection names with name
      exact absurd name.symm ne
    | cons r between =>
      obtain ⟨rfl, -⟩ := List.cons.inj rest
      exact (slotsTaken_lt first' rfl).ne'

/-- No name has the slot that is reserved first. -/
theorem slot_pos (h : s.Allotted k (.reserve k :: requests)) (hv : v ∈ s.named) :
    0 < v.slot.toNat := by
  obtain ⟨front, back, split, -, -, behind⟩ := h.origin v hv
  cases front with
  | nil => cases (List.cons.inj split).1
  | cons r front =>
    obtain ⟨rfl, -⟩ := List.cons.inj split
    rw [behind, slotsTaken, List.count_cons_self]
    omega

end Slots.Allotted

namespace Table

/-- Requests leave in each kind of storage what they take there. -/
theorem allotted {requests : List SlotRequest} {k : Storage}
    (room : slotsTaken k requests < 65536) :
    ((empty.serveAll requests).slots k).Allotted k requests := by
  induction requests using List.reverseRecOn with
  | nil =>
    have none : empty.slots k = Slots.empty := by cases k <;> rfl
    rw [serveAll_nil, none]
    exact .empty k
  | append_singleton requests r ih =>
    have before := ih (Nat.lt_of_le_of_lt (slotsTaken_le_append k requests [r]) room)
    rw [serveAll_append, serveAll_singleton]
    by_cases concerned : r.storage = k
    · subst concerned
      cases r with
      | define name k typeName =>
        rw [SlotRequest.storage, slots_serve_define]
        exact before.define room
      | reserve k =>
        rw [SlotRequest.storage, slots_serve_reserve]
        refine before.reserve ?_
        rwa [← slotsTaken_concat_of_first (r := .reserve k) trivial]
    · rw [slots_serve_of_ne _ (Ne.symm concerned)]
      exact before.other concerned

variable {requests : List SlotRequest} {k : Storage}

/-- What a first request is given: the slot behind those that are taken. -/
theorem serve_first (room : slotsTaken k requests < 65536) {r : SlotRequest}
    (stored : r.storage = k) (first : First requests r) :
    ((empty.serveAll requests).serve r).1.toNat = slotsTaken k requests := by
  subst stored
  have before := allotted room
  cases r with
  | define name k typeName =>
    have new : name ∉ ((empty.serveAll requests).slots k).names := fun known =>
      first ((before.names name).1 known)
    rw [serve, define, Slots.define, Slots.get?_eq_none.2 new]
    exact before.taken
  | reserve k => exact before.taken

/-- A name that is asked for again is the variable that it was, and nothing changes. -/
theorem define_again (front back : List SlotRequest) (name : String) (k : Storage)
    (first typeName : String) :
    (empty.serveAll (front ++ .define name k first :: back)).define name k typeName =
      (((empty.serveAll front).define name k first).1,
        empty.serveAll (front ++ .define name k first :: back)) := by
  set v := ((empty.serveAll front).define name k first).1 with hv
  have found (back : List SlotRequest) :
      (empty.serveAll (front ++ .define name k first :: back)).get? name k = some v := by
    induction back using List.reverseRecOn with
    | nil =>
      rw [serveAll_append, serveAll_singleton, get?, slots_serve_define, hv]
      exact Slots.get?_define_self _ k name first
    | append_singleton back r ih =>
      rw [← List.cons_append, ← List.append_assoc, serveAll_append, serveAll_singleton, get?]
      by_cases concerned : k = r.storage
      · cases r with
        | define other j typeName =>
          obtain rfl : k = j := concerned
          rw [slots_serve_define]
          exact Slots.get?_define ih other
        | reserve j =>
          obtain rfl : k = j := concerned
          rw [slots_serve_reserve]
          exact ih
      · rw [slots_serve_of_ne _ concerned]
        exact ih
  have known := found back
  rw [get?] at known
  rw [define, Slots.define, known]
  simp

/-- The slots that one kind of storage gives to first requests, in order. -/
def handedOut (k : Storage) : List SlotRequest → List SlotRequest → List UInt16
  | _, [] => []
  | earlier, r :: later =>
    (if r.storage = k ∧ First earlier r then [((empty.serveAll earlier).serve r).1] else []) ++
      handedOut k (earlier ++ [r]) later

/-- A request that is no first one takes no slot. -/
theorem slotsTaken_concat_of_not {r : SlotRequest} (h : ¬ (r.storage = k ∧ First requests r)) :
    slotsTaken k (requests ++ [r]) = slotsTaken k requests := by
  by_cases stored : r.storage = k
  · subst stored
    cases r with
    | define name j typeName =>
      have known : name ∈ namesAsked j requests := by
        by_contra new
        exact h ⟨rfl, new⟩
      exact slotsTaken_concat_of_known typeName known
    | reserve j => exact absurd ⟨rfl, trivial⟩ h
  · exact slotsTaken_concat_of_ne stored requests

/-- The slots that are handed out are 0, 1, 2, … up to the number of slots taken. -/
theorem handedOut_eq (earlier later : List SlotRequest)
    (room : slotsTaken k (earlier ++ later) < 65536) :
    List.range (slotsTaken k earlier) ++ (handedOut k earlier later).map UInt16.toNat =
      List.range (slotsTaken k (earlier ++ later)) := by
  induction later generalizing earlier with
  | nil => simp [handedOut]
  | cons r later ih =>
    rw [List.append_cons] at room
    have rest := ih (earlier ++ [r]) room
    rw [List.append_cons, ← rest, handedOut, List.map_append, ← List.append_assoc]
    congr 1
    split
    · next one =>
      obtain ⟨rfl, first⟩ := one
      have before := slotsTaken_le_append r.storage earlier ([r] ++ later)
      rw [← List.append_assoc] at before
      rw [slotsTaken_concat_of_first first, List.range_succ, List.map_singleton,
        serve_first (Nat.lt_of_le_of_lt before room) rfl first]
    · next none => rw [slotsTaken_concat_of_not none, List.map_nil, List.append_nil]

end Table

/-! ### Scopes -/

/-- A variable that a routine declares. -/
inductive OwnVariable
  | parameter (name typeName : String)
  | local_ (name typeName : String)
  deriving DecidableEq, Repr

/-- What is asked of the table of the routine. -/
def OwnVariable.request : OwnVariable → SlotRequest
  | parameter name typeName => .define name .argument typeName
  | local_ name typeName => .define name .local_ typeName

/-- What is asked of the table of a routine before its parameters: the place of its object. -/
def RoutineKind.opening (kind : RoutineKind) : List SlotRequest :=
  if kind = .method then [.reserve .argument] else []

/-- A kind of storage has a segment of its own. -/
theorem Storage.segment_injective : Function.Injective Storage.segment := fun k j h => by
  cases k <;> cases j <;> first | rfl | cases h

namespace Scope

/-- The scope with one more variable. -/
def declareOwn (s : Scope) : OwnVariable → Scope
  | .parameter name typeName => (s.defineArgument name typeName).2
  | .local_ name typeName => (s.defineLocal name typeName).2

/-- The scope with more variables. -/
def declareAll (s : Scope) (declared : List OwnVariable) : Scope := declared.foldl declareOwn s

theorem declareAll_eq (s : Scope) (declared : List OwnVariable) :
    s.declareAll declared =
      { s with own := s.own.serveAll (declared.map OwnVariable.request) } := by
  induction declared generalizing s with
  | nil => rfl
  | cons d declared ih =>
    change (s.declareOwn d).declareAll declared = _
    rw [ih]
    cases d <;> rfl

/-- The table of a routine is asked for the place of its object and for its variables. -/
theorem enter_declareAll (kind : RoutineKind) (owner : Table) (declared : List OwnVariable) :
    (enter kind owner).declareAll declared = ⟨kind, owner,
      Table.empty.serveAll (kind.opening ++ declared.map OwnVariable.request)⟩ := by
  rw [declareAll_eq, Table.serveAll_append]
  cases kind <;> rfl

/-- The requests behind one kind of storage: those for the class, or those for the routine. -/
def asked (requests own : List SlotRequest) : Storage → List SlotRequest
  | .static | .field => requests
  | .argument | .local_ => own

variable {kind : RoutineKind} {requests own : List SlotRequest} {a b : String} {v w : Variable}

/-- A name stands for a variable that was asked for. -/
theorem allotted_of_resolve (room : ∀ k, slotsTaken k requests < 65536)
    (ownRoom : ∀ k, slotsTaken k own < 65536)
    (h : (⟨kind, Table.empty.serveAll requests, Table.empty.serveAll own⟩ : Scope).resolve a =
      some v) :
    let slots := (Table.empty.serveAll (asked requests own v.storage)).slots v.storage
    slots.Allotted v.storage (asked requests own v.storage) ∧ v ∈ slots.named := by
  have stored {k : Storage} (enough : slotsTaken k (asked requests own k) < 65536)
      (member : v ∈ ((Table.empty.serveAll (asked requests own k)).slots k).named) :
      let slots := (Table.empty.serveAll (asked requests own v.storage)).slots v.storage
      slots.Allotted v.storage (asked requests own v.storage) ∧ v ∈ slots.named := by
    have allotted := Table.allotted enough
    obtain ⟨-, -, -, -, rfl, -⟩ := allotted.origin v member
    exact ⟨allotted, member⟩
  rcases mem_of_resolve h with member | member | ⟨-, member⟩ | member
  · exact stored (k := .local_) (ownRoom _) member
  · exact stored (k := .argument) (ownRoom _) member
  · exact stored (k := .field) (room _) member
  · exact stored (k := .static) (room _) member

/-- Two names never have the same place. -/
theorem place_ne (room : ∀ k, slotsTaken k requests < 65536)
    (ownRoom : ∀ k, slotsTaken k own < 65536) (ne : a ≠ b)
    (hv : (⟨kind, Table.empty.serveAll requests, Table.empty.serveAll own⟩ : Scope).resolve a =
      some v)
    (hw : (⟨kind, Table.empty.serveAll requests, Table.empty.serveAll own⟩ : Scope).resolve b =
      some w) : (v.storage.segment, v.slot) ≠ (w.storage.segment, w.slot) := by
  intro same
  obtain ⟨segment, slot⟩ := Prod.mk.inj same
  obtain ⟨allotted, member⟩ := allotted_of_resolve room ownRoom hv
  obtain ⟨-, member'⟩ := allotted_of_resolve room ownRoom hw
  rw [← Storage.segment_injective segment] at member'
  refine allotted.slot_ne member member' ?_ slot
  rwa [name_of_resolve hv, name_of_resolve hw]

/-- Where the first argument is reserved, no name has its place. -/
theorem place_ne_first (room : ∀ k, slotsTaken k requests < 65536)
    (ownRoom : ∀ k, slotsTaken k (.reserve .argument :: own) < 65536)
    (hv : (⟨kind, Table.empty.serveAll requests,
      Table.empty.serveAll (.reserve .argument :: own)⟩ : Scope).resolve a = some v) :
    (v.storage.segment, v.slot) ≠ (.arguments, 0) := by
  intro same
  obtain ⟨segment, slot⟩ := Prod.mk.inj same
  obtain ⟨allotted, member⟩ := allotted_of_resolve room ownRoom hv
  have argument : v.storage = .argument := Storage.segment_injective segment
  rw [argument] at allotted member
  have behind := allotted.slot_pos member
  rw [slot] at behind
  exact Nat.lt_irrefl 0 behind

end Scope

/-- **Slots are dense, stable and never shared.** The slots handed out in one kind of storage are
0, 1, 2, …, one for each first request, which gives the variable that is asked for. A name that is
asked for again is the variable that it was and changes nothing, and no request changes another kind
of storage. In a scope made in this way two names never have the same place, and in a method no name
has the place of the object. -/
theorem Table.slots_allotted (requests : List SlotRequest)
    (room : ∀ k, slotsTaken k requests < 65536) :
    (∀ k, (handedOut k [] requests).map UInt16.toNat = List.range (slotsTaken k requests)) ∧
    (∀ before name k typeName after,
      requests = before ++ SlotRequest.define name k typeName :: after →
        (First before (.define name k typeName) →
          ((empty.serveAll before).define name k typeName).1 =
            ⟨name, k, UInt16.ofNat (slotsTaken k before), typeName⟩) ∧
        ∀ front first back, before = front ++ SlotRequest.define name k first :: back →
          (empty.serveAll before).define name k typeName =
            (((empty.serveAll front).define name k first).1, empty.serveAll before)) ∧
    (∀ before r after, requests = before ++ r :: after → ∀ k ≠ r.storage,
      ((empty.serveAll before).serve r).2.slots k = (empty.serveAll before).slots k) ∧
    ∀ (kind : RoutineKind) (declared : List OwnVariable),
      (∀ k, slotsTaken k (kind.opening ++ declared.map OwnVariable.request) < 65536) →
      let s := (Scope.enter kind (empty.serveAll requests)).declareAll declared
      (∀ a b v w, a ≠ b → s.resolve a = some v → s.resolve b = some w →
        (v.storage.segment, v.slot) ≠ (w.storage.segment, w.slot)) ∧
      (kind = .method → ∀ a v, s.resolve a = some v →
        (v.storage.segment, v.slot) ≠ (.arguments, 0)) := by
  refine ⟨fun k => ?_, ?_, fun before r after _ k other => slots_serve_of_ne _ other, ?_⟩
  · simpa [slotsTaken, namesAsked, distinctNames] using handedOut_eq [] requests (room k)
  · rintro before name k typeName after rfl
    refine ⟨fun first => ?_, ?_⟩
    · have enough := Nat.lt_of_le_of_lt (slotsTaken_le_append k before _) (room k)
      have allotted := allotted enough
      have new : name ∉ ((empty.serveAll before).slots k).names := fun known =>
        first ((allotted.names name).1 known)
      rw [define, Slots.define, Slots.get?_eq_none.2 new, ← allotted.taken, UInt16.ofNat_toNat]
    · rintro front first back rfl
      exact define_again front back name k first typeName
  · intro kind declared ownRoom s
    have made : s = ⟨kind, empty.serveAll requests,
        empty.serveAll (kind.opening ++ declared.map OwnVariable.request)⟩ :=
      Scope.enter_declareAll kind _ declared
    rw [made]
    refine ⟨fun a b v w ne => Scope.place_ne room ownRoom ne, ?_⟩
    rintro rfl a v
    exact Scope.place_ne_first room ownRoom

/-- What the table of a class of points is asked: a field is declared twice. -/
def pointRequests : List SlotRequest :=
  [.define "count" .static "int", .define "x" .field "int", .define "x" .field "char",
    .define "y" .field "int"]

/-- What a method on points declares: a parameter hides a field. -/
def moveVariables : List OwnVariable :=
  [.parameter "x" "int", .local_ "old" "Point", .parameter "other" "Point"]

/-- The two fields have the slots 0 and 1, and the first parameter is behind the object. -/
theorem point_slots_allotted :
    (∀ k, slotsTaken k pointRequests < 65536) ∧
    (∀ k, slotsTaken k (RoutineKind.method.opening ++ moveVariables.map OwnVariable.request) <
      65536) ∧
    (Table.handedOut .field [] pointRequests).map UInt16.toNat = [0, 1] ∧
    let s := (Scope.enter .method (Table.empty.serveAll pointRequests)).declareAll moveVariables
    s.resolve "x" = some ⟨"x", .argument, 1, "int"⟩ ∧
      s.resolve "y" = some ⟨"y", .field, 1, "int"⟩ ∧
      (Storage.argument.segment, (1 : UInt16)) ≠ (Storage.field.segment, 1) := by
  have room : ∀ k, slotsTaken k pointRequests < 65536 := fun k => by cases k <;> decide
  have ownRoom : ∀ k, slotsTaken k (RoutineKind.method.opening ++
      moveVariables.map OwnVariable.request) < 65536 := fun k => by cases k <;> decide
  obtain ⟨dense, -, -, shared⟩ := Table.slots_allotted pointRequests room
  obtain ⟨different, -⟩ := shared .method moveVariables ownRoom
  exact ⟨room, ownRoom, dense .field, rfl, rfl, different "x" "y" _ _ (by decide) rfl rfl⟩

end JackCompiler
