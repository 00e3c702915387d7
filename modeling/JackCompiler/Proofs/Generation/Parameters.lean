import JackCompiler.Compilation
import JackCompiler.Proofs.Generation.Accesses
import JackCompiler.Proofs.Names.Resolution
/-!
# Where parameters are read

A caller pushes the object of a method and then the arguments in order, so the argument for the
parameter at place `k` stands behind `k` others. A routine reads a parameter from the slot that the
different names in front of it leave. These are the same places as long as no name is repeated up to
that parameter: a name declared again takes no slot, and every parameter behind it is read from a
slot too low.

        (int a, int b, int c)      a 0   b 1   c 2
        (int a, int a, int c)      a 0         c 1      but the caller pushes three words
-/

namespace JackCompiler

/-- The slot that a routine reads a parameter from. -/
def Routine.parameterSlot (r : Routine) (name : String) : UInt16 :=
  UInt16.ofNat (r.kind.ownArguments + distinctNames (r.parameterNames.takeWhile (· ≠ name)))

/-- Whether the parameters of a routine have different names up to a place, and the slots up to
there fit a word. -/
def Routine.DistinctUpTo (r : Routine) (k : Nat) : Prop :=
  (r.parameterNames.take (k + 1)).Nodup ∧ r.kind.ownArguments + k < 65536

/-- The slot of a parameter is its place behind the object exactly if the names are different up to
that place. -/
theorem Routine.parameterSlot_eq_iff {r : Routine} {name : String} {k : Nat}
    (h : r.parameterNames[k]? = some name) :
    (r.parameterSlot name).toNat = r.kind.ownArguments + k ↔ r.DistinctUpTo k := by
  obtain ⟨le, all⟩ := distinctNames_takeWhile h
  rw [DistinctUpTo, ← all, parameterSlot, UInt16.toNat_ofNat']
  omega

/-- The code of a routine reads its parameters from their slots: where its body mentions a parameter
that no local hides, to read it, the code has a push of the argument in that slot. If the names are
different up to the parameter at place `k`, this is the word that a caller pushes for it, behind the
object of a method. Otherwise it is another slot. -/
def ReadsParameters (c : ClassTree) (r : Routine) (code : List Instruction) : Prop :=
  ∃ body, code = r.front c.name c.table ++ body ∧
    ∀ before m behind k, r.mentions = before ++ m :: behind → m.use.reads →
      r.parameterNames[k]? = some m.name → m.name ∉ m.declared.map Prod.fst →
      accesses body = before.filterMap (·.access (r.scope c.table)) ++
        .push .arguments (r.parameterSlot m.name) ::
          behind.filterMap (·.access (r.scope c.table)) ∧
      (r.DistinctUpTo k → ∀ object words : List Word, object.length = r.kind.ownArguments →
        (object ++ words)[(r.parameterSlot m.name).toNat]? = words[k]?) ∧
      (¬ r.DistinctUpTo k → (r.parameterSlot m.name).toNat ≠ r.kind.ownArguments + k)

theorem Routine.code_readsParameters {c : ClassTree} {r : Routine} {code : List Instruction}
    (h : r.code c.name c.table = .ok code) : ReadsParameters c r code := by
  obtain ⟨body, rfl, follows⟩ := Routine.body_follows h
  refine ⟨body, rfl, fun before m behind k split reads parameter visible => ?_⟩
  have slot := parameterSlot_eq_iff parameter
  refine ⟨?_, fun distinct object words own => ?_, fun repeated same => repeated (slot.1 same)⟩
  · obtain ⟨typeName, resolved⟩ : ∃ typeName, m.resolved (r.scope c.table) =
        some ⟨m.name, .argument, r.parameterSlot m.name, typeName⟩ :=
      r.resolve_parameter (List.mem_of_getElem? parameter) visible
    have pushed : m.access (r.scope c.table) =
        some (.push .arguments (r.parameterSlot m.name)) := by
      rw [Mention.access_reads reads, resolved]
      rfl
    rw [follows.accesses, split, List.filterMap_append, List.filterMap_cons_some pushed]
  · rw [slot.2 distinct, ← own, List.getElem?_append_right (Nat.le_add_right ..),
      Nat.add_sub_cancel_left]

/-- **Every routine of a chunk reads its parameters from their slots**, which are the places of the
arguments as long as no name is repeated. -/
theorem ClassTree.chunk_readsParameters {c : ClassTree} {chunk : Chunk} (h : c.chunk = .ok chunk) :
    List.Forall₂ (ReadsParameters c) c.routines chunk.routines :=
  (chunk_routines h).imp fun _ _ generated => Routine.code_readsParameters generated

/-- `class A { method int f(int a, int b) { return b; } function int g(int a, int a, int b)
{ return b; } }` -/
def lastOnes : ClassTree where
  name := "A"
  members := [
    .routine ⟨.method, .int, "f", [⟨.int, "a", none⟩, ⟨.int, "b", none⟩],
      [.giveBack (some (.reference "b" none)) none], none⟩,
    .routine ⟨.function, .int, "g", [⟨.int, "a", none⟩, ⟨.int, "a", none⟩, ⟨.int, "b", none⟩],
      [.giveBack (some (.reference "b" none)) none], none⟩]
  position := none

/-- The method finds the second argument in slot 2, behind the object. The function reads the third
from slot 1. -/
theorem lastOnes_readsParameters : lastOnes.chunk = .ok ⟨[
      .function "A.f" 0, .push .arguments 0, .pop .pointer 0, .push .arguments 2, .giveBack,
      .function "A.g" 0, .push .arguments 1, .giveBack]⟩ ∧
    List.Forall₂ (ReadsParameters lastOnes) lastOnes.routines (Chunk.mk [
      .function "A.f" 0, .push .arguments 0, .pop .pointer 0, .push .arguments 2, .giveBack,
      .function "A.g" 0, .push .arguments 1, .giveBack]).routines :=
  ⟨rfl, ClassTree.chunk_readsParameters rfl⟩

/-- The third argument is read from slot 1, where the caller puts the second. -/
theorem repeated_name_shifts :
    compile "class A \x7b function int f(int a, int a, int b) \x7b return b; \x7d \x7d" =
      .ok ⟨[.function "A.f" 0, .push .arguments 1, .giveBack]⟩ := by
  decide +kernel

end JackCompiler
