import JackCompiler.Proofs.Generation.Frames
import JackCompiler.Proofs.Refusals
import JackCompiler.Proofs.Spacing
import JackCompiler.Proofs.Stack.Rereading
/-!
# The numbers in a chunk

Numbers come into a chunk from many sides: those that the text writes down, truth and null, lengths
and bytes of strings, the word given back where there is none, and the room for the fields of an
object. The text is checked for large ones, so all are at most 32767, but for the last: a class may
have more fields than it can write down a number.

        push constant n      n ≤ 32767  checked when the text is read
                             n ≤ 255    a byte
                             n = 0      false, null, no word to give back
        constructor          n fields   unchecked
-/

namespace JackCompiler

/-! ### Small numbers -/

/-- A number in the instruction is one that a class can write down. -/
def Instruction.Small : Instruction → Prop
  | push .constant n => n.toNat ≤ largestConstant
  | _ => True

/-- All numbers in the code are such numbers. -/
def SmallConstants (code : List Instruction) : Prop := ∀ i ∈ code, i.Small

theorem smallConstants_cons {i : Instruction} {code : List Instruction} :
    SmallConstants (i :: code) ↔ i.Small ∧ SmallConstants code := List.forall_mem_cons

theorem SmallConstants.append {a b : List Instruction} (ha : SmallConstants a)
    (hb : SmallConstants b) : SmallConstants (a ++ b) := List.forall_mem_append.2 ⟨ha, hb⟩

theorem SmallConstants.singleton {i : Instruction} (h : i.Small) : SmallConstants [i] :=
  List.forall_mem_singleton.2 h

theorem Variable.push_small (v : Variable) : v.push.Small := by
  obtain ⟨name, storage, slot, typeName⟩ := v
  cases storage <;> trivial

theorem Variable.pop_small (v : Variable) : v.pop.Small := trivial

theorem BinaryOp.small (op : BinaryOp) : op.instruction.Small := by
  cases op <;> trivial

theorem UnaryOp.small (op : UnaryOp) : op.instruction.Small := by
  cases op <;> trivial

theorem selectElement_small : SmallConstants selectElement := by
  simp [selectElement, SmallConstants, Instruction.Small]

/-- The length of a short string is small, and so are its bytes. -/
theorem stringCode_small {value : String} {code : List Instruction}
    (short : value.utf8ByteSize ≤ longestText) (h : stringCode value = .ok code) :
    SmallConstants code := by
  have word : value.utf8ByteSize < UInt16.size := Nat.lt_of_le_of_lt short (by decide)
  have length : (UInt16.ofNat value.utf8ByteSize).toNat ≤ largestConstant := by
    rw [UInt16.toNat_ofNat_of_lt' word]
    exact short
  have byte (b : UInt8) : b.toUInt16.toNat ≤ largestConstant := by
    have := b.toNat_lt
    rw [UInt8.toNat_toUInt16, largestConstant]
    omega
  rw [stringCode, if_pos (short.trans (by decide))] at h
  cases h
  refine smallConstants_cons.2 ⟨length, smallConstants_cons.2 ⟨trivial, fun i hi => ?_⟩⟩
  obtain ⟨b, -, rfl | rfl⟩ : ∃ b ∈ Utf8.bytes value, i = pushConstant b.toUInt16 ∨
      i = .call "String.appendChar" 2 := by simpa using hi
  · exact byte b
  · trivial

/-! ### The code of a body -/

variable {P : Position → Prop} {site : Site} {className : String}

mutual

/-- The numbers in the code of an expression are small. -/
theorem Expr.code_small : ∀ {e : Expr} {code : List Instruction}, e.Located P →
    e.code site = .ok code → SmallConstants code
  | .constant value _, _, l, h => by
    rw [Expr.Located] at l
    cases h
    exact .singleton l.2
  | .boolean value, _, _, h => by
    cases value <;> cases h <;> simp [SmallConstants, Instruction.Small, pushConstant]
  | .null, _, _, h => by
    cases h
    exact .singleton (Nat.zero_le _)
  | .string value, _, l, h => by
    rw [Expr.Located] at l
    exact stringCode_small l h
  | .this _, _, _, h => by
    obtain ⟨i, hi, h⟩ := generated_bind.1 h
    obtain ⟨-, rfl⟩ := Site.receiver_eq_ok.1 hi
    cases h
    exact .singleton trivial
  | .reference .., _, _, h => by
    obtain ⟨v, -, h⟩ := generated_bind.1 h
    cases h
    exact .singleton v.push_small
  | .binary op left right _, _, l, h => by
    rw [Expr.Located] at l
    obtain ⟨a, ha, h⟩ := generated_bind.1 h
    obtain ⟨b, hb, h⟩ := generated_bind.1 h
    cases h
    exact ((Expr.code_small l.2.1 ha).append (Expr.code_small l.2.2 hb)).append (.singleton op.small)
  | .unary op operand, _, l, h => by
    rw [Expr.Located] at l
    obtain ⟨a, ha, h⟩ := generated_bind.1 h
    cases h
    exact (Expr.code_small l ha).append (.singleton op.small)
  | .call name arguments _, _, l, h => by
    rw [Expr.Located] at l
    obtain ⟨a, ha, h⟩ := generated_bind.1 h
    have pushed := argumentsCode_small l.2 ha
    split at h
    · cases h
      exact smallConstants_cons.2 ⟨trivial, pushed.append (.singleton trivial)⟩
    · cases h
      exact pushed.append (.singleton trivial)
  | .methodCall (.this position) name arguments _, _, l, h => by
    rw [Expr.Located] at l
    obtain ⟨i, hi, h⟩ := generated_bind.1 h
    obtain ⟨-, rfl⟩ := Site.receiver_eq_ok.1 hi
    obtain ⟨a, ha, h⟩ := generated_bind.1 h
    cases h
    have pushed := argumentsCode_small l.2.2.2 ha
    exact smallConstants_cons.2 ⟨trivial, pushed.append (.singleton trivial)⟩
  | .methodCall (.reference object position) name arguments _, _, l, h => by
    rw [Expr.Located] at l
    simp only [Expr.code] at h
    split at h
    · next v hv =>
      split at h
      · cases h
      · obtain ⟨a, ha, h⟩ := generated_bind.1 h
        cases h
        have pushed := argumentsCode_small l.2.2.2 ha
        exact smallConstants_cons.2 ⟨v.push_small, pushed.append (.singleton trivial)⟩
    · obtain ⟨a, ha, h⟩ := generated_bind.1 h
      cases h
      exact (argumentsCode_small l.2.2.2 ha).append (.singleton trivial)
  | .index target subscript, _, l, h => by
    rw [Expr.Located] at l
    obtain ⟨a, ha, h⟩ := generated_bind.1 h
    obtain ⟨b, hb, h⟩ := generated_bind.1 h
    cases h
    have operands := (Expr.code_small l.1 ha).append (Expr.code_small l.2 hb)
    exact (operands.append selectElement_small).append (.singleton trivial)

/-- The numbers in the code of arguments are small. -/
theorem argumentsCode_small : ∀ {es : List Expr} {code : List Instruction}, allLocated P es →
    argumentsCode site es = .ok code → SmallConstants code
  | [], _, _, h => by
    cases h
    exact List.forall_mem_nil _
  | e :: es, _, l, h => by
    rw [allLocated] at l
    obtain ⟨a, ha, h⟩ := generated_bind.1 h
    obtain ⟨b, hb, h⟩ := generated_bind.1 h
    cases h
    exact (Expr.code_small l.1 ha).append (argumentsCode_small l.2 hb)

end

theorem unlessGoto_small (label : String) : SmallConstants (unlessGoto label) := by
  simp [unlessGoto, SmallConstants, Instruction.Small]

mutual

/-- The numbers in the code of a statement are small. -/
theorem Stmt.code_small : ∀ {s : Stmt} {f f' : Frame} {code : List Instruction}, s.Located P →
    s.code className f = .ok (code, f') → SmallConstants code
  | .declare d, _, _, _, _, h => by
    cases h
    exact List.forall_mem_nil _
  | .assign name value position, _, _, _, l, h => by
    rw [Stmt.Located] at l
    obtain ⟨a, ha, h⟩ := generated_bind.1 h
    obtain ⟨v, -, h⟩ := generated_bind.1 h
    cases h
    exact (Expr.code_small l.2 ha).append (.singleton v.pop_small)
  | .assignElement name subscript value position, _, _, _, l, h => by
    rw [Stmt.Located] at l
    obtain ⟨a, ha, h⟩ := generated_bind.1 h
    obtain ⟨v, -, h⟩ := generated_bind.1 h
    obtain ⟨b, hb, h⟩ := generated_bind.1 h
    cases h
    have address : SmallConstants (v.push :: b) :=
      smallConstants_cons.2 ⟨v.push_small, Expr.code_small l.2.1 hb⟩
    have operands := (Expr.code_small l.2.2 ha).append address
    exact (operands.append selectElement_small).append (.singleton trivial)
  | .ifThen condition body, f, _, _, l, h => by
    rw [Stmt.Located] at l
    obtain ⟨a, ha, h⟩ := generated_bind.1 h
    obtain ⟨⟨b, f₁⟩, hb, h⟩ := generated_bind.1 h
    cases h
    have test := (Expr.code_small l.1 ha).append (unlessGoto_small (doneLabel f.nextLabel))
    exact (test.append (blockCode_small l.2 hb)).append (.singleton trivial)
  | .ifElse condition body alternative, f, _, _, l, h => by
    rw [Stmt.Located] at l
    obtain ⟨a, ha, h⟩ := generated_bind.1 h
    obtain ⟨⟨b, f₁⟩, hb, h⟩ := generated_bind.1 h
    obtain ⟨⟨c, f₂⟩, hc, h⟩ := generated_bind.1 h
    cases h
    have test := (Expr.code_small l.1 ha).append (unlessGoto_small (elseLabel f.nextLabel))
    have passed : SmallConstants (.goto (doneLabel f.nextLabel) ::
        .label (elseLabel f.nextLabel) :: c) :=
      smallConstants_cons.2 ⟨trivial, smallConstants_cons.2 ⟨trivial, blockCode_small l.2.2 hc⟩⟩
    exact ((test.append (blockCode_small l.2.1 hb)).append passed).append (.singleton trivial)
  | .repeatWhile condition body, f, _, _, l, h => by
    rw [Stmt.Located] at l
    obtain ⟨a, ha, h⟩ := generated_bind.1 h
    obtain ⟨⟨b, f₁⟩, hb, h⟩ := generated_bind.1 h
    cases h
    have begins : SmallConstants (.label (startLabel f.nextLabel) :: a) :=
      smallConstants_cons.2 ⟨trivial, Expr.code_small l.1 ha⟩
    have test := begins.append (unlessGoto_small (endLabel f.nextLabel))
    refine (test.append (blockCode_small l.2 hb)).append ?_
    exact smallConstants_cons.2 ⟨trivial, .singleton trivial⟩
  | .perform call _, _, _, _, l, h => by
    rw [Stmt.Located] at l
    obtain ⟨a, ha, h⟩ := generated_bind.1 h
    cases h
    exact (Expr.code_small l.2 ha).append (.singleton trivial)
  | .giveBack none _, _, _, _, _, h => by
    cases h
    exact smallConstants_cons.2 ⟨Nat.zero_le _, .singleton trivial⟩
  | .giveBack (some value) _, _, _, _, l, h => by
    rw [Stmt.Located] at l
    obtain ⟨a, ha, h⟩ := generated_bind.1 h
    cases h
    exact (Expr.code_small l.2 ha).append (.singleton trivial)

/-- The numbers in the code of a block are small. -/
theorem blockCode_small : ∀ {ss : List Stmt} {f f' : Frame} {code : List Instruction},
    blockLocated P ss → blockCode className ss f = .ok (code, f') → SmallConstants code
  | [], _, _, _, _, h => by
    cases h
    exact List.forall_mem_nil _
  | s :: ss, _, _, _, l, h => by
    rw [blockLocated] at l
    obtain ⟨⟨a, f₁⟩, ha, h⟩ := generated_bind.1 h
    obtain ⟨⟨b, f₂⟩, hb, h⟩ := generated_bind.1 h
    cases h
    exact (Stmt.code_small l.1 ha).append (blockCode_small l.2 hb)

end

/-! ### Routines -/

/-- A word counts the different fields of a class. -/
theorem ClassTree.count_field (c : ClassTree) :
    c.table.count .field = UInt16.ofNat (distinctNames c.fieldNames) := by
  rw [Table.count, table_slots, Slots.taken_defineAll, typed_field, distinctNames_eq_card]
  simp [Slots.empty, Slots.names]

/-- The numbers in the code of a routine are small, but for one: a constructor pushes the number of
fields right behind its directive, and it may be large. -/
structure RoutineConstants (c : ClassTree) (r : Routine) (code : List Instruction) : Prop where
  small : r.kind ≠ .constructor → SmallConstants code
  constructor : r.kind = .constructor → ∃ locals fields rest,
    code = .function (qualified c.name r.name) locals :: .push .constant fields :: rest ∧
      fields = UInt16.ofNat (distinctNames c.fieldNames) ∧ SmallConstants rest

theorem Routine.code_constants {c : ClassTree} {r : Routine} (located : r.Located P)
    {code : List Instruction} (h : r.code c.name c.table = .ok code) : RoutineConstants c r code := by
  obtain ⟨body, f, hb, rfl⟩ := Routine.code_eq_ok h
  have small : SmallConstants body := blockCode_small located.body hb
  constructor
  case small =>
    intro other
    refine SmallConstants.append ?_ small
    rw [front]
    cases hk : r.kind with
    | constructor => exact absurd hk other
    | function => exact .singleton trivial
    | method => simp [SmallConstants, Instruction.Small, RoutineKind.prologue]
  case constructor =>
    intro constructor
    have rest : SmallConstants (.call "Memory.alloc" 1 :: .pop .pointer 0 :: body) :=
      smallConstants_cons.2 ⟨trivial, smallConstants_cons.2 ⟨trivial, small⟩⟩
    rw [front, constructor]
    exact ⟨_, _, _, rfl, c.count_field, rest⟩

theorem ClassTree.chunk_constants {c : ClassTree} {chunk : Chunk} (located : c.Located P)
    (h : c.chunk = .ok chunk) :
    List.Forall₂ (RoutineConstants c) c.routines chunk.routines :=
  ((List.forall₂_and_left c.routines chunk.routines).2 ⟨located.routines, chunk_routines h⟩).imp
    fun _ _ both => Routine.code_constants both.1 both.2

/-- The instructions of a chunk are those of its routines. -/
theorem Chunk.mem_instructions {chunk : Chunk} {i : Instruction} :
    i ∈ chunk.instructions ↔ ∃ code ∈ chunk.routines, i ∈ code := by
  rw [← List.mem_flatten, Chunk.routines, List.flatten_splitBy]

/-- All numbers of a chunk are small if there is no constructor, or few fields. -/
theorem ClassTree.smallConstants_iff {c : ClassTree} {chunk : Chunk} 
    (routines : List.Forall₂ (RoutineConstants c) c.routines chunk.routines)
    (word : distinctNames c.fieldNames ≤ 65535) :
    SmallConstants chunk.instructions ↔
      ((∃ r ∈ c.routines, r.kind = .constructor) →
        distinctNames c.fieldNames ≤ largestConstant) := by
  have fields : (UInt16.ofNat (distinctNames c.fieldNames)).toNat = distinctNames c.fieldNames :=
    UInt16.toNat_ofNat_of_lt' (Nat.lt_succ_of_le word)
  constructor
  · rintro small ⟨r, hr, constructor⟩
    obtain ⟨code, member, constants⟩ := exists_mem_of_forall₂ routines.flip hr
    obtain ⟨locals, _, rest, rfl, rfl, -⟩ := constants.constructor constructor
    have allocated := small _ (Chunk.mem_instructions.2 ⟨_, member, .tail _ (.head _)⟩)
    rwa [← fields]
  · intro few i hi
    obtain ⟨code, member, inside⟩ := Chunk.mem_instructions.1 hi
    obtain ⟨r, hr, constants⟩ := exists_mem_of_forall₂ routines member
    by_cases constructor : r.kind = .constructor
    · obtain ⟨locals, _, rest, rfl, rfl, small⟩ := constants.constructor constructor
      rcases List.mem_cons.1 inside with rfl | inside
      · trivial
      rcases List.mem_cons.1 inside with rfl | inside
      · exact fields.trans_le (few ⟨r, hr, constructor⟩)
      · exact small i inside
    · exact constants.small constructor i inside

/-! ### Source texts -/

/-- **All numbers in the chunk of a source text are small, if no constructor makes room for many
fields.** -/
theorem compile_constants {source : String} {chunk : Chunk} (h : compile source = .ok chunk) :
    ∃ tree, ClassTree.ofSource source = .ok tree ∧
      List.Forall₂ (RoutineConstants tree) tree.routines chunk.routines ∧
      (distinctNames tree.fieldNames ≤ 65535 →
        (SmallConstants chunk.instructions ↔
          ((∃ r ∈ tree.routines, r.kind = .constructor) →
            distinctNames tree.fieldNames ≤ largestConstant))) := by
  obtain ⟨tree, read, generated⟩ := generated_bind.1 h
  have routines := ClassTree.chunk_constants (ClassTree.ofSource_located read) generated
  exact ⟨tree, read, routines, ClassTree.smallConstants_iff routines⟩

/-- A class whose numbers come from all sides. -/
def cardSource : String :=
  "class Card \x7b field int rank, suit; " ++
    "constructor Card new() \x7b let rank = 32767; let suit = true; return this; \x7d " ++
    "method void show() \x7b do Output.printString(\"A\"); let rank = null; return; \x7d \x7d"

/-- What the class is compiled to. -/
def cardChunk : Chunk :=
  ⟨[.function "Card.new" 0, .push .constant 2, .call "Memory.alloc" 1, .pop .pointer 0,
    .push .constant 32767, .pop .this 0, .push .constant 0, .operate .not, .pop .this 1,
    .push .pointer 0, .giveBack,
    .function "Card.show" 0, .push .arguments 0, .pop .pointer 0,
    .push .constant 1, .call "String.new" 1, .push .constant 65, .call "String.appendChar" 2,
    .call "Output.printString" 1, .pop .temp 0, .push .constant 0, .pop .this 0,
    .push .constant 0, .giveBack]⟩

/-- Room for two fields is a small number as the others are. -/
theorem cardSource_constants : compile cardSource = .ok cardChunk ∧
    ∃ tree, ClassTree.ofSource cardSource = .ok tree ∧ distinctNames tree.fieldNames = 2 ∧
      (∃ r ∈ tree.routines, r.kind = .constructor) ∧
      List.Forall₂ (RoutineConstants tree) tree.routines cardChunk.routines ∧
      SmallConstants cardChunk.instructions := by
  have compiled : compile cardSource = .ok cardChunk := by decide +kernel
  have parts : (ClassTree.ofSource cardSource).map
      (fun tree => (distinctNames tree.fieldNames, tree.routines.map Routine.kind)) =
        .ok (2, [.constructor, .method]) := by decide +kernel
  obtain ⟨tree, read, routines, small⟩ := compile_constants compiled
  rw [read] at parts
  obtain ⟨fields, kinds⟩ := Prod.mk.inj (Except.ok.inj parts)
  have constructor : ∃ r ∈ tree.routines, r.kind = .constructor := by
    rw [← List.mem_map, kinds]
    exact .head _
  rw [fields] at small
  exact ⟨compiled, tree, read, fields, constructor, routines,
    (small (by decide)).2 fun _ => by decide⟩

/-! ### Many fields -/

/-- The place of all tokens of a class that is made by hand. -/
def nowhere : Span := ⟨Position.start, Position.start⟩

/-- A reserved word as a leaf of a derivation. -/
def wordLeaf (k : Keyword) : Grammar.Reserved k := ⟨⟨.keyword k, k.text, nowhere⟩, rfl⟩

/-- A symbol as a leaf of a derivation. -/
def markLeaf (s : Symbol) : Grammar.Mark s := ⟨⟨.symbol s, s.text, nowhere⟩, rfl⟩

/-- A name as a leaf of a derivation. -/
def nameLeaf (value : String) : Grammar.Name := ⟨⟨.identifier, value, nowhere⟩, rfl⟩

/-- The names of fields: `a0`, `a1`, and so on. -/
def fieldName (i : Nat) : String := "a" ++ toString i

/-- `class A { field int a0, a1, …; constructor A new() { return this; } }` with some fields more
than one. -/
def wide (more : Nat) : Grammar.Class where
  word := wordLeaf .class_
  name := nameLeaf "A"
  left := markLeaf .openBrace
  members := [
    .perObject (wordLeaf .field) ⟨.int (wordLeaf .int), nameLeaf (fieldName 0),
      (List.range more).map fun i => (markLeaf .comma, nameLeaf (fieldName (i + 1))),
      markLeaf .semicolon⟩,
    .constructor (wordLeaf .constructor) (.named (nameLeaf "A"))
      ⟨nameLeaf "new", markLeaf .openParen, .none, markLeaf .closeParen,
        .mk (markLeaf .openBrace)
          (.cons (.giveBackValue (wordLeaf .return_)
            (.mk (.plain (.plain (.this (wordLeaf .this)))) .nil) (markLeaf .semicolon)) .nil)
          (markLeaf .closeBrace)⟩]
  right := markLeaf .closeBrace

theorem fieldName_injective : Function.Injective fieldName := by
  intro i j same
  exact eq_of_repr ((String.append_right_inj "a").1 same)

theorem wide_fieldNames (more : Nat) :
    (wide more).tree.fieldNames = (List.range (more + 1)).map fieldName := by
  rw [List.range_succ_eq_map]
  simp [ClassTree.fieldNames, ClassTree.fields, Grammar.Class.tree, wide, Grammar.MemberPart.tree,
    Grammar.Variables.tree, Grammar.Name.text, nameLeaf, Function.comp_def]

theorem wide_distinctNames (more : Nat) :
    distinctNames (wide more).tree.fieldNames = more + 1 := by
  have distinct : ((List.range (more + 1)).map fieldName).Nodup :=
    List.nodup_range.map fieldName_injective
  rw [distinctNames, wide_fieldNames, distinct.dedup, List.length_map, List.length_range]

/-- The chunk of the class. -/
def wideChunk (fields : UInt16) : Chunk :=
  ⟨[.function "A.new" 0, .push .constant fields, .call "Memory.alloc" 1, .pop .pointer 0,
    .push .pointer 0, .giveBack]⟩

theorem wide_chunk (more : Nat) :
    (wide more).tree.chunk = .ok (wideChunk (UInt16.ofNat (more + 1))) := by
  have code : List.Forall₂ (fun r code => r.code "A" (wide more).tree.table = .ok code)
      (wide more).tree.routines [[.function "A.new" 0,
        .push .constant ((wide more).tree.table.count .field), .call "Memory.alloc" 1,
        .pop .pointer 0, .push .pointer 0, .giveBack]] := .cons rfl .nil
  rw [ClassTree.chunk_of_codes code, ClassTree.count_field, wide_distinctNames]
  rfl

/-! ### The text of the class -/

theorem fieldName_standsAlone (i : Nat) : (nameLeaf (fieldName i)).token.StandsAlone := by
  obtain ⟨some, digits⟩ := (isDigits_toString i).isNumber
  have spelled : Utf8.bytes (fieldName i) = 97 :: Utf8.bytes (toString i) := by
    rw [fieldName, Utf8.bytes_append]
    rfl
  refine Token.standsAlone_identifier nowhere ⟨97, _, spelled, rfl, fun b hb => ?_⟩ fun k same => ?_
  · simp [isNameRest, digits b hb]
  · -- no reserved word has a digit
    obtain ⟨b, rest, first⟩ := List.exists_cons_of_ne_nil some
    have inside : b ∈ Utf8.bytes (toString i) := by
      rw [first]
      exact .head _
    have letter := k.letters b (by rw [← same, spelled]; exact .tail _ inside)
    exact not_isNameStart (.inr (digits b inside)) letter

theorem className_standsAlone : (nameLeaf "A").token.StandsAlone := by
  have free : ∀ k ∈ Keyword.all, Utf8.bytes "A" ≠ Utf8.bytes k.text := by decide +kernel
  exact Token.standsAlone_identifier nowhere ⟨65, [], rfl, rfl, by simp⟩ fun k => free k k.mem_all

theorem newName_standsAlone : (nameLeaf "new").token.StandsAlone := by
  have free : ∀ k ∈ Keyword.all, Utf8.bytes "new" ≠ Utf8.bytes k.text := by decide +kernel
  have letters : ∀ b ∈ [(101 : UInt8), 119], isNameRest b := by decide +kernel
  exact Token.standsAlone_identifier nowhere ⟨110, [101, 119], rfl, rfl, letters⟩
    fun k => free k k.mem_all

/-- Names behind commas that stand alone, in front of tokens that do. -/
theorem Grammar.MoreNames.standsAlone {more : Grammar.MoreNames} {ts : List Token}
    (names : ∀ p ∈ more, p.1.token.StandsAlone ∧ p.2.token.StandsAlone)
    (behind : ∀ t ∈ ts, t.StandsAlone) : ∀ t ∈ more.onto ts, t.StandsAlone := by
  induction more with
  | nil => exact behind
  | cons p more ih =>
    obtain ⟨⟨comma, name⟩, rest⟩ := List.forall_mem_cons.1 names
    exact List.forall_mem_cons.2 ⟨comma, List.forall_mem_cons.2 ⟨name, ih rest⟩⟩

theorem wide_standsAlone (more : Nat) : ∀ t ∈ (wide more).tokens, t.StandsAlone := by
  have word (k : Keyword) : (wordLeaf k).token.StandsAlone := Token.standsAlone_keyword k nowhere
  have mark (s : Symbol) : (markLeaf s).token.StandsAlone := Token.standsAlone_symbol s nowhere
  have names : ∀ p ∈ (List.range more).map fun i => (markLeaf .comma, nameLeaf (fieldName (i + 1))),
      p.1.token.StandsAlone ∧ p.2.token.StandsAlone := by
    rw [List.forall_mem_map]
    exact fun i _ => ⟨mark .comma, fieldName_standsAlone (i + 1)⟩
  have behind : ∀ t ∈ [(markLeaf .semicolon).token, (wordLeaf .constructor).token,
      (nameLeaf "A").token, (nameLeaf "new").token, (markLeaf .openParen).token,
      (markLeaf .closeParen).token, (markLeaf .openBrace).token, (wordLeaf .return_).token,
      (wordLeaf .this).token, (markLeaf .semicolon).token, (markLeaf .closeBrace).token,
      (markLeaf .closeBrace).token], t.StandsAlone := by
    simp [word, mark, className_standsAlone, newName_standsAlone]
  have fields := List.forall_mem_cons.2
    ⟨fieldName_standsAlone 0, Grammar.MoreNames.standsAlone names behind⟩
  have member := List.forall_mem_cons.2 ⟨word .field, List.forall_mem_cons.2 ⟨word .int, fields⟩⟩
  exact List.forall_mem_cons.2 ⟨word .class_, List.forall_mem_cons.2
    ⟨className_standsAlone, List.forall_mem_cons.2 ⟨mark .openBrace, member⟩⟩⟩

/-- With 32768 fields the number is larger than a class can write down. -/
theorem wide_allocation_large :
    compile (spacedText (wide 32767).tokens) = .ok (wideChunk 32768) ∧
    distinctNames (wide 32767).tree.fieldNames ≤ 65535 ∧
    .push .constant 32768 ∈ (wideChunk 32768).instructions ∧
    ¬ (32768 : UInt16).toNat ≤ largestConstant := by
  have compiled := (wide 32767).compile_spacedText (wide_standsAlone 32767)
  rw [wide_chunk] at compiled
  exact ⟨compiled.eq_ok, by rw [wide_distinctNames]; decide, by decide, by decide⟩

end JackCompiler
