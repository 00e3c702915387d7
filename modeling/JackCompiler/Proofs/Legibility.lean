import JackCompiler.Proofs.Execution.RoutineCode
import JackCompiler.Proofs.Generation.Routines
import JackCompiler.Proofs.Grammar.Identifiers
import JackCompiler.Proofs.Names.Declarations
import JackCompiler.Proofs.Refusals
import JackCompiler.Proofs.Stack.Rereading
/-!
# What is compiled can be read

The text of every chunk that a source text gives is read as that chunk. Identifiers are solid: the
scanner lets no blank and no slash into them. The generator makes up the names in its instructions
from names in the tree, with a dot between two of them, and from labels and routines of its own,
and all of these are solid too.

        identifiers ──▶ names in the tree ──▶ names in the code ──▶ words of the text
                         types of variables
-/

namespace JackCompiler

/-! ### Identifiers -/

/-- The bytes of a name are characters of words. -/
theorem isWordChar_of_isNameRest {b : UInt8} (h : isNameRest b) :
    IsWordChar (Char.ofNat b.toNat) := by
  have all : ∀ n < 128, isNameRest (UInt8.ofNat n) → 0x20 < (Char.ofNat n).toNat ∧
      (Char.ofNat n).toNat < 0x80 ∧ Char.ofNat n ≠ '/' := by decide
  refine all b.toNat (small_of_isNameRest (.inl h)) ?_
  rwa [UInt8.ofNat_toNat]

/-- The token of a name is solid. -/
theorem Token.Spelled.isSolid {t : Token} (h : t.Spelled) (name : t.kind = .identifier) :
    IsSolid t.value := by
  obtain ⟨w, lexeme, value⟩ := h
  rw [name] at lexeme value
  obtain ⟨first, rest, rfl, start, behind⟩ := lexeme
  have letters : ∀ b ∈ first :: rest, isNameRest b :=
    List.forall_mem_cons.2 ⟨by simp [isNameRest, start], behind⟩
  have chars : t.value.toList = (first :: rest).map (Char.ofNat ·.toNat) := by
    have ascii : ∀ b ∈ first :: rest, b.toNat < 128 :=
      fun b hb => small_of_isNameRest (.inl (letters b hb))
    rw [value, Scanner.valueOf, if_neg (by simp), Utf8.decode_ascii ascii, String.toList_ofList]
  refine ⟨fun empty => ?_, ?_⟩
  · rw [empty] at chars
    cases chars
  · rw [chars, List.forall_mem_map]
    exact fun b hb => isWordChar_of_isNameRest (letters b hb)

/-- The names in the tree of a source text are solid. -/
theorem ClassTree.ofSource_solid {source : String} {tree : ClassTree}
    (h : ofSource source = .ok tree) : ∀ name ∈ tree.identifiers, IsSolid name := by
  obtain ⟨c, tokens, rfl⟩ := derivation_of_ofSource h
  rw [← c.identifiersOf_tokens, tokens, Grammar.identifiersOf, List.forall_mem_map]
  intro t member
  obtain ⟨significant, name⟩ := List.mem_filter.1 member
  exact (significantTokens_spelled source t significant).isSolid (by simpa using name)

theorem IsSolid.qualified {a b : String} (ha : IsSolid a) (hb : IsSolid b) :
    IsSolid (qualified a b) := by
  have dot : IsSolid "." := by decide +kernel
  exact (ha.append dot).append hb

/-! ### Types of variables -/

/-- The types of the variables of some slots are solid. -/
def Slots.SolidTypes (s : Slots) : Prop := ∀ v ∈ s.named, IsSolid v.typeName

theorem Slots.SolidTypes.defineAll {s : Slots} (h : s.SolidTypes) (storage : Storage)
    {typed : List (String × String)} (solid : ∀ d ∈ typed, IsSolid d.2) :
    (s.defineAll storage typed).SolidTypes := by
  induction typed generalizing s with
  | nil => exact h
  | cons d typed ih =>
    obtain ⟨first, rest⟩ := List.forall_mem_cons.1 solid
    rw [defineAll_cons]
    refine ih ?_ rest
    by_cases known : d.1 ∈ s.names
    · rwa [define_known known]
    · rw [define_new known]
      exact List.forall_mem_cons.2 ⟨first, h⟩

/-- The types of all variables that a scope sees are solid. -/
structure Scope.SolidTypes (s : Scope) : Prop where
  locals : (s.own.slots .local_).SolidTypes
  arguments : (s.own.slots .argument).SolidTypes
  fields : (s.owner.slots .field).SolidTypes
  statics : (s.owner.slots .static).SolidTypes

theorem Scope.SolidTypes.resolve {s : Scope} (h : s.SolidTypes) {name : String} {v : Variable}
    (hv : s.resolve name = some v) : IsSolid v.typeName := by
  rcases Scope.mem_of_resolve hv with hv | hv | ⟨-, hv⟩ | hv
  · exact h.locals v hv
  · exact h.arguments v hv
  · exact h.fields v hv
  · exact h.statics v hv

/-- The name of a type is solid: it is a reserved word, or a name. -/
theorem JackType.isSolid_name {type : JackType} (h : ∀ name ∈ type.identifiers, IsSolid name) :
    IsSolid type.name := by
  cases type with
  | named name => exact h name (.head _)
  | int | char | boolean | void => decide +kernel

theorem Declaration.isSolid_typed {d : Declaration} (h : ∀ name ∈ d.identifiers, IsSolid name) :
    ∀ v ∈ d.typed, IsSolid v.2 := by
  rw [typed, List.forall_mem_map]
  exact fun _ _ => JackType.isSolid_name fun name hn => h name (List.mem_append_left _ hn)

theorem Scope.SolidTypes.withLocals {s : Scope} (h : s.SolidTypes) {d : Declaration}
    (solid : ∀ name ∈ d.identifiers, IsSolid name) : (s.withLocals d).SolidTypes := by
  rw [withLocals_eq]
  exact ⟨h.locals.defineAll _ (Declaration.isSolid_typed solid), h.arguments, h.fields, h.statics⟩

/-! ### Code -/

/-- All instructions of the code are legible. -/
def LegibleCode (code : List Instruction) : Prop := ∀ i ∈ code, i.Legible

theorem legibleCode_append {a b : List Instruction} :
    LegibleCode (a ++ b) ↔ LegibleCode a ∧ LegibleCode b := List.forall_mem_append

theorem legibleCode_cons {i : Instruction} {code : List Instruction} :
    LegibleCode (i :: code) ↔ i.Legible ∧ LegibleCode code := List.forall_mem_cons

@[simp] theorem legibleCode_singleton {i : Instruction} : LegibleCode [i] ↔ i.Legible :=
  List.forall_mem_singleton

theorem Variable.pop_legible (v : Variable) : v.pop.Legible := by
  obtain ⟨name, storage, slot, typeName⟩ := v
  cases storage <;> exact nofun

theorem selectElement_legible : LegibleCode selectElement := by
  simp [selectElement, LegibleCode, Instruction.Legible]

/-- The names of the routines that all classes share are solid. -/
theorem isSolid_shared : IsSolid "Math.multiply" ∧ IsSolid "Math.divide" ∧ IsSolid "Memory.alloc" ∧
    IsSolid "String.new" ∧ IsSolid "String.appendChar" := by
  decide +kernel

theorem BinaryOp.legible (op : BinaryOp) : op.instruction.Legible := by
  obtain ⟨multiply, divide, -⟩ := isSolid_shared
  cases op with
  | multiply => exact multiply.isWord
  | divide => exact divide.isWord
  | _ => trivial

theorem UnaryOp.legible (op : UnaryOp) : op.instruction.Legible := by
  cases op <;> trivial

theorem stringCode_legible {value : String} {code : List Instruction}
    (h : stringCode value = .ok code) : LegibleCode code := by
  obtain ⟨-, -, -, new, appendChar⟩ := isSolid_shared
  unfold stringCode at h
  split at h
  · cases h
    refine legibleCode_cons.2 ⟨trivial, legibleCode_cons.2 ⟨new.isWord, ?_⟩⟩
    intro i hi
    obtain ⟨byte, -, here⟩ := List.mem_flatMap.1 hi
    obtain rfl | rfl := List.mem_pair.1 here
    · trivial
    · exact appendChar.isWord
  · cases h

/-- A routine is called on what the arguments have pushed. -/
theorem legibleCode_call {a b : List Instruction} {className name : String} (arity : Nat)
    (ha : LegibleCode a) (hb : LegibleCode b) (hc : IsSolid className) (hn : IsSolid name) :
    LegibleCode (a ++ b ++ [callWith (qualified className name) arity]) := by
  refine legibleCode_append.2 ⟨legibleCode_append.2 ⟨ha, hb⟩, legibleCode_singleton.2 ?_⟩
  exact (hc.qualified hn).isWord

mutual

/-- The code of an expression with solid names is legible. -/
theorem Expr.code_legible (site : Site) (owner : IsSolid site.className)
    (types : site.scope.SolidTypes) : ∀ {e : Expr} {code : List Instruction},
    (∀ name ∈ e.identifiers, IsSolid name) → e.code site = .ok code → LegibleCode code
  | .constant .., _, _, h | .null, _, _, h | .boolean false, _, _, h
  | .boolean true, _, _, h => by
    cases h
    simp [LegibleCode, pushConstant, Instruction.Legible]
  | .string _, _, _, h => stringCode_legible h
  | .this _, _, _, h => by
    obtain ⟨i, hi, h⟩ := generated_bind.1 h
    obtain ⟨-, rfl⟩ := Site.receiver_eq_ok.1 hi
    cases h
    exact legibleCode_singleton.2 trivial
  | .reference .., _, _, h => by
    obtain ⟨v, -, h⟩ := generated_bind.1 h
    cases h
    exact legibleCode_singleton.2 trivial
  | .binary op left right _, _, names, h => by
    rw [Expr.identifiers, List.forall_mem_append] at names
    obtain ⟨a, ha, h⟩ := generated_bind.1 h
    obtain ⟨b, hb, h⟩ := generated_bind.1 h
    cases h
    refine legibleCode_append.2 ⟨legibleCode_append.2 ⟨?_, ?_⟩, legibleCode_singleton.2 op.legible⟩
    · exact Expr.code_legible site owner types names.1 ha
    · exact Expr.code_legible site owner types names.2 hb
  | .unary op operand, _, names, h => by
    rw [Expr.identifiers] at names
    obtain ⟨a, ha, h⟩ := generated_bind.1 h
    cases h
    exact legibleCode_append.2 ⟨Expr.code_legible site owner types names ha,
      legibleCode_singleton.2 op.legible⟩
  | .call name arguments _, _, names, h => by
    rw [Expr.identifiers, List.forall_mem_cons] at names
    obtain ⟨a, ha, h⟩ := generated_bind.1 h
    have pushed : LegibleCode a := argumentsCode_legible site owner types names.2 ha
    split at h
    · cases h
      exact legibleCode_call (a := [pushObject]) _ (legibleCode_singleton.2 trivial) pushed owner
        names.1
    · cases h
      exact legibleCode_call (a := []) _ (List.forall_mem_nil _) pushed owner names.1
  | .methodCall (.this _) name arguments _, _, names, h => by
    rw [Expr.identifiers, Expr.identifiers, List.nil_append, List.forall_mem_cons] at names
    obtain ⟨i, hi, h⟩ := generated_bind.1 h
    obtain ⟨-, rfl⟩ := Site.receiver_eq_ok.1 hi
    obtain ⟨a, ha, h⟩ := generated_bind.1 h
    cases h
    exact legibleCode_call (a := [pushObject]) _ (legibleCode_singleton.2 trivial)
      (argumentsCode_legible site owner types names.2 ha) owner names.1
  | .methodCall (.reference object _) name arguments _, _, names, h => by
    rw [Expr.identifiers, Expr.identifiers, List.singleton_append, List.forall_mem_cons,
      List.forall_mem_cons] at names
    obtain ⟨named, routine, others⟩ := names
    simp only [Expr.code] at h
    split at h
    · next v hv =>
      split at h
      · cases h
      · obtain ⟨a, ha, h⟩ := generated_bind.1 h
        cases h
        exact legibleCode_call (a := [v.push]) _ (legibleCode_singleton.2 trivial)
          (argumentsCode_legible site owner types others ha) (types.resolve hv) routine
    · obtain ⟨a, ha, h⟩ := generated_bind.1 h
      cases h
      exact legibleCode_call (a := []) _ (List.forall_mem_nil _)
        (argumentsCode_legible site owner types others ha) named routine
  | .index target subscript, _, names, h => by
    rw [Expr.identifiers, List.forall_mem_append] at names
    obtain ⟨a, ha, h⟩ := generated_bind.1 h
    obtain ⟨b, hb, h⟩ := generated_bind.1 h
    cases h
    refine legibleCode_append.2 ⟨legibleCode_append.2 ⟨legibleCode_append.2 ⟨?_, ?_⟩,
      selectElement_legible⟩, legibleCode_singleton.2 trivial⟩
    · exact Expr.code_legible site owner types names.1 ha
    · exact Expr.code_legible site owner types names.2 hb

theorem argumentsCode_legible (site : Site) (owner : IsSolid site.className)
    (types : site.scope.SolidTypes) : ∀ {es : List Expr} {code : List Instruction},
    (∀ name ∈ allIdentifiers es, IsSolid name) → argumentsCode site es = .ok code →
    LegibleCode code
  | [], _, _, h => by
    cases h
    exact List.forall_mem_nil _
  | e :: es, _, names, h => by
    rw [allIdentifiers, List.forall_mem_append] at names
    obtain ⟨a, ha, h⟩ := generated_bind.1 h
    obtain ⟨b, hb, h⟩ := generated_bind.1 h
    cases h
    exact legibleCode_append.2 ⟨Expr.code_legible site owner types names.1 ha,
      argumentsCode_legible site owner types names.2 hb⟩

end

/-- Labels are solid: a tag with a number behind it. -/
theorem isSolid_labels (n : Nat) : IsSolid (elseLabel n) ∧ IsSolid (doneLabel n) ∧
    IsSolid (startLabel n) ∧ IsSolid (endLabel n) := by
  have numbered {tag : String} (h : IsSolid tag) : IsSolid (tag ++ toString n) :=
    h.append (isDigits_toString n).isSolid
  have tags : IsSolid "IF_ELSE_" ∧ IsSolid "IF_DONE_" ∧ IsSolid "WHILE_START_" ∧
      IsSolid "WHILE_END_" := by decide +kernel
  obtain ⟨otherwise, done, start, stop⟩ := tags
  exact ⟨numbered otherwise, numbered done, numbered start, numbered stop⟩

/-- A condition and the jump behind it. -/
theorem legibleCode_test {a : List Instruction} (ha : LegibleCode a) {label : String}
    (solid : IsSolid label) : LegibleCode (a ++ unlessGoto label) := by
  refine legibleCode_append.2 ⟨ha, legibleCode_cons.2 ⟨trivial, ?_⟩⟩
  exact legibleCode_singleton.2 solid.isWord

mutual

/-- The code of a statement with solid names is legible, and the types behind it are solid. -/
theorem Stmt.code_legible {className : String} (owner : IsSolid className) :
    ∀ {s : Stmt} {f f' : Frame} {code : List Instruction},
    (∀ name ∈ s.identifiers, IsSolid name) → f.scope.SolidTypes →
    s.code className f = .ok (code, f') → LegibleCode code ∧ f'.scope.SolidTypes
  | .declare d, f, _, _, names, types, h => by
    rw [Stmt.identifiers] at names
    cases h
    exact ⟨List.forall_mem_nil _, types.withLocals names⟩
  | .assign name value position, f, _, _, names, types, h => by
    rw [Stmt.identifiers, List.forall_mem_cons] at names
    obtain ⟨a, ha, h⟩ := generated_bind.1 h
    obtain ⟨v, -, h⟩ := generated_bind.1 h
    cases h
    have value : LegibleCode a := Expr.code_legible ⟨className, f.scope⟩ owner types names.2 ha
    exact ⟨legibleCode_append.2 ⟨value, legibleCode_singleton.2 v.pop_legible⟩, types⟩
  | .assignElement name subscript value position, f, _, _, names, types, h => by
    rw [Stmt.identifiers, List.cons_append, List.forall_mem_cons, List.forall_mem_append] at names
    obtain ⟨a, ha, h⟩ := generated_bind.1 h
    obtain ⟨v, -, h⟩ := generated_bind.1 h
    obtain ⟨b, hb, h⟩ := generated_bind.1 h
    cases h
    have value : LegibleCode a := Expr.code_legible ⟨className, f.scope⟩ owner types names.2.2 ha
    have subscript : LegibleCode b :=
      Expr.code_legible ⟨className, f.scope⟩ owner types names.2.1 hb
    have address : LegibleCode (v.push :: b) := legibleCode_cons.2 ⟨trivial, subscript⟩
    have element : LegibleCode [.pop .that 0] := legibleCode_singleton.2 nofun
    exact ⟨legibleCode_append.2 ⟨legibleCode_append.2
      ⟨legibleCode_append.2 ⟨value, address⟩, selectElement_legible⟩, element⟩, types⟩
  | .ifThen condition body, f, _, _, names, types, h => by
    rw [Stmt.identifiers, List.forall_mem_append] at names
    obtain ⟨a, ha, h⟩ := generated_bind.1 h
    obtain ⟨⟨b, f₁⟩, hb, h⟩ := generated_bind.1 h
    cases h
    obtain ⟨-, done, -, -⟩ := isSolid_labels f.nextLabel
    have condition := Expr.code_legible ⟨className, f.scope⟩ owner types names.1 ha
    have test := legibleCode_test condition done
    obtain ⟨body, behind⟩ := blockCode_legible (f := f.takeLabel) owner names.2 types hb
    exact ⟨legibleCode_append.2 ⟨legibleCode_append.2 ⟨test, body⟩,
      legibleCode_singleton.2 done.isWord⟩, behind⟩
  | .ifElse condition body alternative, f, _, _, names, types, h => by
    simp only [Stmt.identifiers, List.forall_mem_append] at names
    obtain ⟨⟨first, second⟩, third⟩ := names
    obtain ⟨a, ha, h⟩ := generated_bind.1 h
    obtain ⟨⟨b, f₁⟩, hb, h⟩ := generated_bind.1 h
    obtain ⟨⟨c, f₂⟩, hc, h⟩ := generated_bind.1 h
    cases h
    obtain ⟨otherwise, done, -, -⟩ := isSolid_labels f.nextLabel
    have condition := Expr.code_legible ⟨className, f.scope⟩ owner types first ha
    have test := legibleCode_test condition otherwise
    obtain ⟨body, between⟩ := blockCode_legible (f := f.takeLabel) owner second types hb
    obtain ⟨alternative, behind⟩ := blockCode_legible owner third between hc
    have passed : LegibleCode
        (.goto (doneLabel f.nextLabel) :: .label (elseLabel f.nextLabel) :: c) :=
      legibleCode_cons.2 ⟨done.isWord, legibleCode_cons.2 ⟨otherwise.isWord, alternative⟩⟩
    exact ⟨legibleCode_append.2 ⟨legibleCode_append.2 ⟨legibleCode_append.2 ⟨test, body⟩, passed⟩,
      legibleCode_singleton.2 done.isWord⟩, behind⟩
  | .repeatWhile condition body, f, _, _, names, types, h => by
    rw [Stmt.identifiers, List.forall_mem_append] at names
    obtain ⟨a, ha, h⟩ := generated_bind.1 h
    obtain ⟨⟨b, f₁⟩, hb, h⟩ := generated_bind.1 h
    cases h
    obtain ⟨-, -, start, stop⟩ := isSolid_labels f.nextLabel
    have condition := Expr.code_legible ⟨className, f.scope⟩ owner types names.1 ha
    have begins : LegibleCode [.label (startLabel f.nextLabel)] :=
      legibleCode_singleton.2 start.isWord
    have test := legibleCode_test (legibleCode_append.2 ⟨begins, condition⟩) stop
    obtain ⟨body, behind⟩ := blockCode_legible (f := f.takeLabel) owner names.2 types hb
    have again : LegibleCode [.goto (startLabel f.nextLabel), .label (endLabel f.nextLabel)] :=
      legibleCode_cons.2 ⟨start.isWord, legibleCode_singleton.2 stop.isWord⟩
    exact ⟨legibleCode_append.2 ⟨legibleCode_append.2 ⟨test, body⟩, again⟩, behind⟩
  | .perform call position, f, _, _, names, types, h => by
    rw [Stmt.identifiers] at names
    obtain ⟨a, ha, h⟩ := generated_bind.1 h
    cases h
    have call : LegibleCode a := Expr.code_legible ⟨className, f.scope⟩ owner types names ha
    exact ⟨legibleCode_append.2 ⟨call, legibleCode_singleton.2 nofun⟩, types⟩
  | .giveBack none position, f, _, _, _, types, h => by
    cases h
    exact ⟨legibleCode_cons.2 ⟨trivial, legibleCode_singleton.2 trivial⟩, types⟩
  | .giveBack (some value) position, f, _, _, names, types, h => by
    rw [Stmt.identifiers] at names
    obtain ⟨a, ha, h⟩ := generated_bind.1 h
    cases h
    have value : LegibleCode a := Expr.code_legible ⟨className, f.scope⟩ owner types names ha
    exact ⟨legibleCode_append.2 ⟨value, legibleCode_singleton.2 trivial⟩, types⟩

theorem blockCode_legible {className : String} (owner : IsSolid className) :
    ∀ {ss : List Stmt} {f f' : Frame} {code : List Instruction},
    (∀ name ∈ blockIdentifiers ss, IsSolid name) → f.scope.SolidTypes →
    blockCode className ss f = .ok (code, f') → LegibleCode code ∧ f'.scope.SolidTypes
  | [], f, _, _, _, types, h => by
    cases h
    exact ⟨List.forall_mem_nil _, types⟩
  | s :: ss, f, _, _, names, types, h => by
    rw [blockIdentifiers, List.forall_mem_append] at names
    obtain ⟨⟨a, f₁⟩, ha, h⟩ := generated_bind.1 h
    obtain ⟨⟨b, f₂⟩, hb, h⟩ := generated_bind.1 h
    cases h
    obtain ⟨first, between⟩ := Stmt.code_legible owner names.1 types ha
    obtain ⟨rest, behind⟩ := blockCode_legible owner names.2 between hb
    exact ⟨legibleCode_append.2 ⟨first, rest⟩, behind⟩

end

/-! ### Classes -/

/-- The types of what a routine sees are solid, if those of its class are. -/
theorem Routine.scope_solidTypes {table : Table} {r : Routine}
    (fields : (table.slots .field).SolidTypes) (statics : (table.slots .static).SolidTypes)
    (names : ∀ p ∈ r.parameters, ∀ name ∈ p.identifiers, IsSolid name) :
    (r.scope table).SolidTypes := by
  rw [Routine.scope, Scope.withParameters_eq, Scope.enter]
  refine ⟨?_, ?_, fields, statics⟩
  · cases r.kind <;> exact List.forall_mem_nil _
  · rw [Table.slots_setSlots_self]
    refine Slots.SolidTypes.defineAll ?_ _ ?_
    · cases r.kind <;> exact List.forall_mem_nil _
    · rw [List.forall_mem_map]
      intro p hp
      exact JackType.isSolid_name fun name hn => names p hp name (List.mem_append_left _ hn)

theorem Routine.code_legible {className : String} {table : Table} {r : Routine}
    {code : List Instruction} (owner : IsSolid className)
    (fields : (table.slots .field).SolidTypes) (statics : (table.slots .static).SolidTypes)
    (names : ∀ name ∈ r.identifiers, IsSolid name) (h : r.code className table = .ok code) :
    LegibleCode code := by
  rw [identifiers, List.append_assoc, List.cons_append, List.forall_mem_append,
    List.forall_mem_cons, List.forall_mem_append] at names
  obtain ⟨-, routine, parameters, inside⟩ := names
  have parameters : ∀ p ∈ r.parameters, ∀ name ∈ p.identifiers, IsSolid name :=
    fun p hp name hn => parameters name (List.mem_flatMap.2 ⟨p, hp, hn⟩)
  obtain ⟨body, f, hb, rfl⟩ := Routine.code_eq_ok h
  have types := Routine.scope_solidTypes fields statics parameters
  refine legibleCode_append.2 ⟨?_, (blockCode_legible owner inside types hb).1⟩
  obtain ⟨-, -, alloc, -⟩ := isSolid_shared
  have object : Segment.pointer ≠ .constant := by decide
  rw [Routine.front]
  refine legibleCode_cons.2 ⟨(owner.qualified routine).isWord, ?_⟩
  cases r.kind with
  | function => exact List.forall_mem_nil _
  | method => exact legibleCode_cons.2 ⟨trivial, legibleCode_singleton.2 object⟩
  | constructor =>
    exact legibleCode_cons.2 ⟨trivial, legibleCode_cons.2
      ⟨alloc.isWord, legibleCode_singleton.2 object⟩⟩

/-- The chunk of a class with solid names is legible. -/
theorem ClassTree.chunk_legible {c : ClassTree} {chunk : Chunk}
    (names : ∀ name ∈ c.identifiers, IsSolid name) (h : c.chunk = .ok chunk) :
    LegibleCode chunk.instructions := by
  rw [identifiers, List.forall_mem_cons] at names
  obtain ⟨owner, names⟩ := names
  have members : ∀ m ∈ c.members, ∀ name ∈ m.identifiers, IsSolid name :=
    fun m hm name hn => names name (List.mem_flatMap.2 ⟨m, hm, hn⟩)
  have types (k : Storage) : (c.table.slots k).SolidTypes := by
    rw [table_slots]
    have none : Slots.empty.SolidTypes := List.forall_mem_nil _
    refine none.defineAll k fun v hv => ?_
    obtain ⟨m, hm, hv⟩ := List.mem_flatMap.1 hv
    have solid := members m hm
    cases m with
    | shared d | perObject d =>
      cases k with
      | static | field =>
        first
        | exact Declaration.isSolid_typed solid v hv
        | cases hv
      | _ => cases hv
    | routine r => cases hv
  intro i hi
  rw [← List.flatten_splitBy (fun _ i => !i.opensRoutine) chunk.instructions] at hi
  obtain ⟨code, hcode, hi⟩ := List.mem_flatten.1 hi
  obtain ⟨r, hr, generated⟩ := exists_mem_of_forall₂ (chunk_routines h) hcode
  obtain ⟨m, hm, found⟩ := List.mem_filterMap.1 hr
  have solid := members m hm
  cases m with
  | routine _ =>
    cases found
    exact Routine.code_legible owner (types .field) (types .static) solid generated i hi
  | _ => cases found

/-- **The text of what is compiled is read as the same chunk.** -/
theorem compile_text_reread {source : String} {chunk : Chunk} (h : compile source = .ok chunk) :
    Chunk.parse chunk.text = .ok chunk := by
  unfold compile at h
  cases read : ClassTree.ofSource source with
  | error e =>
    rw [read] at h
    cases h
  | ok tree =>
    rw [read] at h
    exact Chunk.parse_text (ClassTree.chunk_legible (ClassTree.ofSource_solid read) h)

/-- A class with a loop, a string of slashes, and calls on a variable, on the object and on a
class. -/
def countdownSource : String :=
  "class Count_9 \x7b field int n; static Screen s; method void run(int k) \x7b while (n > 0) " ++
  "\x7b do s.draw(\"//\"); do step(k); let n = n - Math.min(k, n); \x7d return; \x7d \x7d"

/-- The chunk of this class. -/
def countdown : Chunk where
  instructions := [
    .function "Count_9.run" 0, .push .arguments 0, .pop .pointer 0,
    .label "WHILE_START_0", .push .this 0, .push .constant 0, .operate .gt, .operate .not,
    .ifGoto "WHILE_END_0",
    .push .statics 0, .push .constant 2, .call "String.new" 1,
    .push .constant 47, .call "String.appendChar" 2,
    .push .constant 47, .call "String.appendChar" 2, .call "Screen.draw" 2, .pop .temp 0,
    .push .pointer 0, .push .arguments 1, .call "Count_9.step" 2, .pop .temp 0,
    .push .this 0, .push .arguments 1, .push .this 0, .call "Math.min" 2, .operate .sub,
    .pop .this 0, .goto "WHILE_START_0", .label "WHILE_END_0", .push .constant 0, .giveBack]

theorem countdown_reread : compile countdownSource = .ok countdown ∧
    Chunk.parse countdown.text = .ok countdown := by
  have h : compile countdownSource = .ok countdown := by decide +kernel
  exact ⟨h, compile_text_reread h⟩

end JackCompiler
