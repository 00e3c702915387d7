import JackCompiler.Proofs.Execution.Meaning
import JackCompiler.Proofs.Generation.Routines
/-!
# The height of the stack

Every place of a routine has one height of the stack, whichever way control comes there, reachable
or not. The heights are read off the text: each instruction takes the words it needs and leaves its
own, and where labels stand nothing is left over. So jumps agree with what falls through, and
a return finds its word and nothing else.

        while (c) { … }     label   c   not   if-goto   …   goto   label
        height            0       0   1     1         0   0      0       0
-/

namespace JackCompiler

/-! ### What instructions take and leave -/

/-- The number of words that an operation works on. -/
def Operation.arity : Operation → Nat
  | neg | not => 1
  | add | sub | eq | gt | lt | and | or => 2

namespace Instruction

/-- The number of words that an instruction takes off the stack. -/
def takes : Instruction → Nat
  | push .. | label _ | goto _ | function .. => 0
  | pop .. | ifGoto _ | giveBack => 1
  | operate operation => operation.arity
  | call _ arguments => arguments.toNat

/-- The number of words that it leaves in their place. -/
def leaves : Instruction → Nat
  | push .. | operate _ | call .. => 1
  | pop .. | label _ | goto _ | ifGoto _ | function .. | giveBack => 0

/-- The height behind an instruction. -/
def heightBehind (h : Nat) (i : Instruction) : Nat := h - i.takes + i.leaves

/-- Whether the next instruction may be run behind this one. -/
def fallsThrough : Instruction → Bool
  | goto _ | giveBack => false
  | _ => true

/-- The label that an instruction may jump to. -/
def target? : Instruction → Option String
  | goto name | ifGoto name => some name
  | _ => none

end Instruction

/-- Control may go on from one place of the code to another. -/
inductive Edge (code : List Instruction) : Nat → Nat → Prop
  | next {pc : Nat} {i : Instruction} : code[pc]? = some i → i.fallsThrough → Edge code pc (pc + 1)
  | jump {pc place : Nat} {i : Instruction} {name : String} : code[pc]? = some i →
      i.target? = some name → code[place]? = some (.label name) → Edge code pc place

/-- Heights of the stack for the places of a piece of code, the one behind it included: every
instruction finds its operands above a floor, and the heights agree wherever control may go. -/
structure Heights (code : List Instruction) (floor : Nat) (height : Nat → Nat) : Prop where
  operands : ∀ {pc i}, code[pc]? = some i → floor + i.takes ≤ height pc
  agree : ∀ {pc pc' i}, Edge code pc pc' → code[pc]? = some i →
    height pc' + i.takes = height pc + i.leaves

/-- Heights for a routine: nothing is on its stack behind its directive, where labels stand, and at
its end, and a word that is given back is alone there. -/
structure RoutineHeights (code : List Instruction) (height : Nat → Nat) : Prop where
  heights : Heights code 0 height
  start : (∃ name count, code[0]? = some (.function name count)) ∧ height 1 = 0
  labels : ∀ {pc name}, code[pc]? = some (.label name) → height pc = 0
  returns : ∀ {pc}, code[pc]? = some .giveBack → height pc = 1
  finish : height code.length = 0

/-! ### Climbing through code -/

/-- Whether an instruction may stand at a height: labels and gotos at the floor, conditional jumps
and returns one word above it, and others where they find their operands. -/
def Instruction.Stands (floor : Nat) : Instruction → Nat → Prop
  | label _, h | goto _, h => h = floor
  | ifGoto _, h | giveBack, h => h = floor + 1
  | i, h => floor + i.takes ≤ h

/-- Every instruction may stand at its height, and the last height is as given. -/
def Climbs (floor : Nat) : List Instruction → Nat → Nat → Prop
  | [], h, k => h = k
  | i :: code, h, k => i.Stands floor h ∧ Climbs floor code (i.heightBehind h) k

section

variable {floor h m k : Nat} {a b code : List Instruction}

theorem Climbs.append (ha : Climbs floor a h m) (hb : Climbs floor b m k) :
    Climbs floor (a ++ b) h k := by
  induction a generalizing h with
  | nil =>
    obtain rfl : h = m := ha
    exact hb
  | cons i a ih => exact ⟨ha.1, ih ha.2⟩

theorem climbs_push (segment : Segment) (slot : UInt16) (le : floor ≤ h) :
    Climbs floor [.push segment slot] h (h + 1) := ⟨le, rfl⟩

theorem climbs_pop (segment : Segment) (slot : UInt16) (le : floor ≤ h) :
    Climbs floor [.pop segment slot] (h + 1) h := ⟨Nat.succ_le_succ le, rfl⟩

/-- A call leaves one word in place of its arguments, if their number is a word. -/
theorem climbs_call (name : String) (arity : Nat) (fits : arity < 65536) (le : floor ≤ h) :
    Climbs floor [callWith name arity] (h + arity) (h + 1) := by
  have takes : (callWith name arity).takes = arity := UInt16.toNat_ofNat_of_lt' fits
  constructor
  · change floor + (callWith name arity).takes ≤ h + arity
    rw [takes]
    exact Nat.add_le_add_right le arity
  · change h + arity - (callWith name arity).takes + 1 = h + 1
    rw [takes, Nat.add_sub_cancel]

theorem climbs_operate (o : Operation) (le : floor ≤ h) :
    Climbs floor [.operate o] (h + o.arity) (h + 1) := by
  refine ⟨Nat.add_le_add_right le _, ?_⟩
  change h + o.arity - o.arity + 1 = h + 1
  rw [Nat.add_sub_cancel]

/-- What has climbed keeps to its heights, if it starts from some of its places. -/
theorem Climbs.at {pc : Nat} {i : Instruction} (climbs : Climbs floor code h k)
    (here : code[pc]? = some i) : i.Stands floor ((code.take pc).foldl Instruction.heightBehind h) := by
  induction code generalizing pc h with
  | nil => cases here
  | cons j code ih =>
    cases pc with
    | zero =>
      cases here
      exact climbs.1
    | succ pc => exact ih climbs.2 here

theorem Climbs.last (climbs : Climbs floor code h k) :
    code.foldl Instruction.heightBehind h = k := by
  induction code generalizing h with
  | nil => exact climbs
  | cons i code ih => exact ih climbs.2

end

/-- The operands of an instruction are above the floor where it may stand. -/
theorem Instruction.Stands.operands {i : Instruction} {floor h : Nat} (stands : i.Stands floor h) :
    floor + i.takes ≤ h := by
  cases i <;> simp only [Stands, takes] at stands ⊢ <;> omega

/-- A jump leaves the floor. -/
theorem Instruction.Stands.jump {i : Instruction} {floor h : Nat} {name : String}
    (stands : i.Stands floor h) (target : i.target? = some name) :
    floor + i.takes = h + i.leaves := by
  cases i <;> simp only [target?, reduceCtorEq, Stands, takes, leaves] at stands target ⊢ <;> omega

/-- Code that climbs has heights, the first and the last of them as given. -/
theorem Climbs.heights {floor h k : Nat} {code : List Instruction} (climbs : Climbs floor code h k) :
    let height := fun pc => (code.take pc).foldl Instruction.heightBehind h
    Heights code floor height ∧ height 0 = h ∧ height code.length = k ∧
      ∀ {pc : Nat} {i : Instruction}, code[pc]? = some i → i.Stands floor (height pc) := by
  intro height
  refine ⟨⟨fun here => (climbs.at here).operands, ?_⟩, rfl, ?_, climbs.at⟩
  · intro pc pc' i edge here
    have stands := climbs.at here
    cases edge with
    | next here' falls =>
      have behind : height (pc + 1) = i.heightBehind (height pc) := by
        simp only [height, List.take_add_one, here, Option.toList_some, List.foldl_append]
        rfl
      have := stands.operands
      rw [behind, Instruction.heightBehind]
      change _ ≤ height pc at this
      omega
    | jump here' target there =>
      obtain rfl := Option.some.inj (here.symm.trans here')
      have label : height pc' = floor := climbs.at there
      rw [label]
      exact stands.jump target
  · change (code.take code.length).foldl _ h = k
    rw [List.take_length, climbs.last]

/-! ### Expressions -/

section

variable {floor h : Nat} {site : Site}

theorem BinaryOp.climbs (op : BinaryOp) (le : floor ≤ h) :
    Climbs floor [op.instruction] (h + 2) (h + 1) := by
  cases op with
  | multiply => exact climbs_call "Math.multiply" 2 (by decide) le
  | divide => exact climbs_call "Math.divide" 2 (by decide) le
  | add => exact climbs_operate .add le
  | subtract => exact climbs_operate .sub le
  | and => exact climbs_operate .and le
  | or => exact climbs_operate .or le
  | less => exact climbs_operate .lt le
  | greater => exact climbs_operate .gt le
  | equal => exact climbs_operate .eq le

theorem UnaryOp.climbs (op : UnaryOp) (le : floor ≤ h) :
    Climbs floor [op.instruction] (h + 1) (h + 1) := by
  cases op with
  | negate => exact climbs_operate .neg le
  | not => exact climbs_operate .not le

/-- Of the array and the subscript nothing is left. -/
theorem climbs_selectElement (le : floor ≤ h) : Climbs floor selectElement (h + 2) h :=
  (climbs_operate .add le).append (climbs_pop .pointer 1 le)

/-- An object, arguments, and the call that takes them all. -/
theorem climbs_callOn {object : Instruction} {a : List Instruction} {count : Nat} (name : String)
    (pushed : Climbs floor [object] h (h + 1)) (arguments : Climbs floor a (h + 1) (h + 1 + count))
    (short : count < 65535) (le : floor ≤ h) :
    Climbs floor (object :: a ++ [callWith name (count + 1)]) h (h + 1) := by
  have called := climbs_call name (count + 1) (by omega) le
  rw [Nat.add_assoc, Nat.add_comm 1 count] at arguments
  exact (pushed.append arguments).append called

theorem stringCode_climbs {value : String} {code : List Instruction}
    (hc : stringCode value = .ok code) (le : floor ≤ h) : Climbs floor code h (h + 1) := by
  have up : floor ≤ h + 1 := Nat.le_succ_of_le le
  unfold stringCode at hc
  split at hc
  · cases hc
    -- each byte is pushed onto the string, and the string is left
    have bytes (w : List UInt8) : Climbs floor (w.flatMap fun byte =>
        [pushConstant byte.toUInt16, callWith "String.appendChar" 2]) (h + 1) (h + 1) := by
      induction w with
      | nil => exact rfl
      | cons byte w ih =>
        have appended := (climbs_push .constant byte.toUInt16 up).append
          (climbs_call "String.appendChar" 2 (by decide) le)
        exact appended.append ih
    have made := (climbs_push .constant (UInt16.ofNat value.utf8ByteSize) le).append
      (climbs_call "String.new" 1 (by decide) le)
    exact made.append (bytes (Utf8.bytes value))
  · cases hc

mutual

/-- The code of an expression raises the stack by one word. -/
theorem Expr.code_climbs : ∀ {e : Expr} {code : List Instruction} {floor h : Nat},
    e.code site = .ok code → e.CallsFit → floor ≤ h → Climbs floor code h (h + 1)
  | .constant .., _, _, _, hc, _, le | .null, _, _, _, hc, _, le
  | .boolean false, _, _, _, hc, _, le => by
    cases hc
    exact climbs_push _ _ le
  | .boolean true, _, _, _, hc, _, le => by
    cases hc
    exact (climbs_push _ _ le).append (climbs_operate .not le)
  | .string value, _, _, _, hc, _, le => stringCode_climbs hc le
  | .this _, _, _, _, hc, _, le => by
    obtain ⟨i, hi, hc⟩ := generated_bind.1 hc
    obtain ⟨-, rfl⟩ := Site.receiver_eq_ok.1 hi
    cases hc
    exact climbs_push _ _ le
  | .reference .., _, _, _, hc, _, le => by
    obtain ⟨v, -, hc⟩ := generated_bind.1 hc
    cases hc
    exact climbs_push _ _ le
  | .binary op left right _, _, _, _, hc, fits, le => by
    obtain ⟨a, ha, hc⟩ := generated_bind.1 hc
    obtain ⟨b, hb, hc⟩ := generated_bind.1 hc
    cases hc
    have operands := (Expr.code_climbs ha fits.1 le).append
      (Expr.code_climbs hb fits.2 (Nat.le_succ_of_le le))
    exact operands.append (op.climbs le)
  | .unary op operand, _, _, _, hc, fits, le => by
    obtain ⟨a, ha, hc⟩ := generated_bind.1 hc
    cases hc
    exact (Expr.code_climbs ha fits le).append (op.climbs le)
  | .call name arguments _, _, _, _, hc, fits, le => by
    obtain ⟨a, ha, hc⟩ := generated_bind.1 hc
    obtain ⟨short, fits⟩ := fits
    split at hc <;> cases hc
    · exact climbs_callOn _ (climbs_push _ _ le)
        (argumentsCode_climbs ha fits (Nat.le_succ_of_le le)) short le
    · exact (argumentsCode_climbs ha fits le).append (climbs_call _ _ (by omega) le)
  | .methodCall (.this _) name arguments _, _, _, _, hc, fits, le => by
    obtain ⟨i, hi, hc⟩ := generated_bind.1 hc
    obtain ⟨-, rfl⟩ := Site.receiver_eq_ok.1 hi
    obtain ⟨a, ha, hc⟩ := generated_bind.1 hc
    obtain ⟨-, short, fits⟩ := fits
    cases hc
    exact climbs_callOn _ (climbs_push _ _ le)
      (argumentsCode_climbs ha fits (Nat.le_succ_of_le le)) short le
  | .methodCall (.reference object _) name arguments _, _, _, _, hc, fits, le => by
    simp only [Expr.code] at hc
    obtain ⟨-, short, fits⟩ := fits
    split at hc
    · split at hc
      · cases hc
      · obtain ⟨a, ha, hc⟩ := generated_bind.1 hc
        cases hc
        exact climbs_callOn _ (climbs_push _ _ le)
          (argumentsCode_climbs ha fits (Nat.le_succ_of_le le)) short le
    · obtain ⟨a, ha, hc⟩ := generated_bind.1 hc
      cases hc
      exact (argumentsCode_climbs ha fits le).append (climbs_call _ _ (by omega) le)
  | .index target subscript, _, _, _, hc, fits, le => by
    obtain ⟨a, ha, hc⟩ := generated_bind.1 hc
    obtain ⟨b, hb, hc⟩ := generated_bind.1 hc
    cases hc
    have address := (Expr.code_climbs ha fits.1 le).append
      (Expr.code_climbs hb fits.2 (Nat.le_succ_of_le le))
    exact (address.append (climbs_selectElement le)).append (climbs_push .that 0 le)

/-- The code of arguments raises the stack by one word for each. -/
theorem argumentsCode_climbs : ∀ {es : List Expr} {code : List Instruction} {floor h : Nat},
    argumentsCode site es = .ok code → allCallsFit es → floor ≤ h →
    Climbs floor code h (h + es.length)
  | [], _, _, _, hc, _, _ => by
    cases hc
    exact rfl
  | e :: es, _, _, h, hc, fits, le => by
    obtain ⟨a, ha, hc⟩ := generated_bind.1 hc
    obtain ⟨b, hb, hc⟩ := generated_bind.1 hc
    cases hc
    have rest := argumentsCode_climbs hb fits.2 (Nat.le_succ_of_le le)
    rw [Nat.succ_add_eq_add_succ] at rest
    exact (Expr.code_climbs ha fits.1 le).append rest

end

/-- The code of an expression has heights that rise by one word and never fall below the first. -/
theorem Expr.code_heights {e : Expr} {code : List Instruction} (hc : e.code site = .ok code)
    (fits : e.CallsFit) (h : Nat) :
    ∃ height, Heights code h height ∧ height 0 = h ∧ height code.length = h + 1 := by
  obtain ⟨heights, first, last, -⟩ := (Expr.code_climbs hc fits (Nat.le_refl h)).heights
  exact ⟨_, heights, first, last⟩

end

/-! ### Statements -/

section

variable {className : String}

/-- Behind a test nothing is left of the condition. -/
theorem climbs_test {site : Site} {condition : Expr} {a : List Instruction}
    (ha : condition.code site = .ok a) (fits : condition.CallsFit) (label : String) :
    Climbs 0 (a ++ unlessGoto label) 0 0 :=
  (Expr.code_climbs ha fits le_rfl).append ⟨le_rfl, rfl, rfl⟩

theorem climbs_label (name : String) : Climbs 0 [.label name] 0 0 := ⟨rfl, rfl⟩

theorem climbs_goto (name : String) : Climbs 0 [.goto name] 0 0 := ⟨rfl, rfl⟩

mutual

/-- The code of a statement begins and ends with nothing on the stack. -/
theorem Stmt.code_climbs : ∀ {s : Stmt} {f f' : Frame} {code : List Instruction},
    s.code className f = .ok (code, f') → s.CallsFit → Climbs 0 code 0 0
  | .declare _, _, _, _, hc, _ => by
    cases hc
    exact rfl
  | .assign name value position, f, _, _, hc, fits => by
    obtain ⟨a, ha, hc⟩ := generated_bind.1 hc
    obtain ⟨v, -, hc⟩ := generated_bind.1 hc
    cases hc
    exact (Expr.code_climbs ha fits le_rfl).append (climbs_pop _ _ le_rfl)
  | .assignElement name subscript value position, f, _, _, hc, fits => by
    obtain ⟨a, ha, hc⟩ := generated_bind.1 hc
    obtain ⟨v, -, hc⟩ := generated_bind.1 hc
    obtain ⟨b, hb, hc⟩ := generated_bind.1 hc
    cases hc
    -- the value waits below the address
    have value := Expr.code_climbs ha fits.1 (Nat.le_refl 0)
    have array := climbs_push v.storage.segment v.slot (Nat.zero_le 1)
    have address := array.append (Expr.code_climbs hb fits.2 (Nat.zero_le 2))
    have selected := (value.append address).append (climbs_selectElement (Nat.zero_le 1))
    exact selected.append (climbs_pop .that 0 le_rfl)
  | .ifThen condition body, f, _, _, hc, fits => by
    obtain ⟨a, ha, hc⟩ := generated_bind.1 hc
    obtain ⟨⟨b, f₁⟩, hb, hc⟩ := generated_bind.1 hc
    cases hc
    have test := climbs_test ha fits.1 (doneLabel f.nextLabel)
    exact (test.append (blockCode_climbs hb fits.2)).append (climbs_label _)
  | .ifElse condition body alternative, f, _, _, hc, fits => by
    obtain ⟨a, ha, hc⟩ := generated_bind.1 hc
    obtain ⟨⟨b, f₁⟩, hb, hc⟩ := generated_bind.1 hc
    obtain ⟨⟨c, f₂⟩, hd, hc⟩ := generated_bind.1 hc
    cases hc
    have test := climbs_test ha fits.1 (elseLabel f.nextLabel)
    have first := test.append (blockCode_climbs hb fits.2.1)
    have passed := (climbs_goto (doneLabel f.nextLabel)).append (climbs_label (elseLabel f.nextLabel))
    have second := passed.append (blockCode_climbs hd fits.2.2)
    exact (first.append second).append (climbs_label _)
  | .repeatWhile condition body, f, _, _, hc, fits => by
    obtain ⟨a, ha, hc⟩ := generated_bind.1 hc
    obtain ⟨⟨b, f₁⟩, hb, hc⟩ := generated_bind.1 hc
    cases hc
    have test := (climbs_label (startLabel f.nextLabel)).append
      (climbs_test ha fits.1 (endLabel f.nextLabel))
    have again := (climbs_goto (startLabel f.nextLabel)).append (climbs_label (endLabel f.nextLabel))
    exact (test.append (blockCode_climbs hb fits.2)).append again
  | .perform call position, f, _, _, hc, fits => by
    obtain ⟨a, ha, hc⟩ := generated_bind.1 hc
    cases hc
    exact (Expr.code_climbs ha fits le_rfl).append (climbs_pop _ _ le_rfl)
  | .giveBack none position, f, _, _, hc, _ => by
    cases hc
    exact (climbs_push .constant 0 le_rfl).append ⟨rfl, rfl⟩
  | .giveBack (some value) position, f, _, _, hc, fits => by
    obtain ⟨a, ha, hc⟩ := generated_bind.1 hc
    cases hc
    exact (Expr.code_climbs ha fits le_rfl).append ⟨rfl, rfl⟩

/-- The code of a block begins and ends with nothing on the stack. -/
theorem blockCode_climbs : ∀ {ss : List Stmt} {f f' : Frame} {code : List Instruction},
    blockCode className ss f = .ok (code, f') → blockCallsFit ss → Climbs 0 code 0 0
  | [], _, _, _, hc, _ => by
    cases hc
    exact rfl
  | s :: ss, _, _, _, hc, fits => by
    obtain ⟨⟨a, f₁⟩, ha, hc⟩ := generated_bind.1 hc
    obtain ⟨⟨b, f₂⟩, hb, hc⟩ := generated_bind.1 hc
    cases hc
    exact (Stmt.code_climbs ha fits.1).append (blockCode_climbs hb fits.2)

end

/-! ### Routines -/

theorem RoutineKind.prologue_climbs (kind : RoutineKind) (n : UInt16) :
    Climbs 0 (kind.prologue n) 0 0 := by
  cases kind with
  | function => exact rfl
  | method => exact (climbs_push .arguments 0 le_rfl).append (climbs_pop .pointer 0 le_rfl)
  | constructor =>
    have allocated := (climbs_push .constant n le_rfl).append
      (climbs_call "Memory.alloc" 1 (by decide) (Nat.zero_le 0))
    exact allocated.append (climbs_pop .pointer 0 le_rfl)

/-- The code of a routine has heights. -/
theorem Routine.code_heights {r : Routine} {table : Table} {code : List Instruction}
    (hc : r.code className table = .ok code) (fits : blockCallsFit r.body) :
    ∃ height, RoutineHeights code height := by
  obtain ⟨⟨body, f⟩, hb, hc⟩ := generated_bind.1 hc
  cases hc
  have behind := (r.kind.prologue_climbs (table.count .field)).append (blockCode_climbs hb fits)
  have climbs : Climbs 0 (.function (qualified className r.name) f.scope.localCount ::
      (r.kind.prologue (table.count .field) ++ body)) 0 0 := ⟨le_rfl, behind⟩
  obtain ⟨heights, -, finish, stands⟩ := climbs.heights
  exact ⟨_, heights, ⟨⟨_, _, rfl⟩, rfl⟩, stands, stands, finish⟩

end

/-- Every call in the class fits. -/
def ClassTree.CallsFit (c : ClassTree) : Prop := ∀ r ∈ c.routines, blockCallsFit r.body

/-- **Every routine of a chunk has heights, and the code of every expression raises the stack by one
word**, without looking below it. -/
theorem ClassTree.chunk_heights {c : ClassTree} {chunk : Chunk} (h : c.chunk = .ok chunk)
    (fits : c.CallsFit) :
    (∀ code ∈ chunk.routines, ∃ height, RoutineHeights code height) ∧
      ∀ (site : Site) (e : Expr) (code : List Instruction) (start : Nat),
        e.code site = .ok code → e.CallsFit →
        ∃ height, Heights code start height ∧ height 0 = start ∧ height code.length = start + 1 := by
  refine ⟨fun code member => ?_, fun site e code start hc fits => Expr.code_heights hc fits start⟩
  obtain ⟨r, hr, hc⟩ := exists_mem_of_forall₂ (chunk_routines h) member
  exact Routine.code_heights hc (fits r hr)

/-- `class Row { field int n; method void fill(Array a) { while (n < 3) { let a[n] = a[step(n)]; }
return; } }` -/
def row : ClassTree where
  name := "Row"
  members := [
    .perObject ⟨.int, ["n"], none⟩,
    .routine {
      kind := .method
      returnType := .void
      name := "fill"
      parameters := [⟨.named "Array", "a", none⟩]
      body := [
        .repeatWhile (.binary .less (.reference "n" none) (.constant 3 none) none)
          [.assignElement "a" (.reference "n" none)
            (.index (.reference "a" none) (.call "step" [.reference "n" none] none)) none],
        .giveBack none none]
      position := none }]
  position := none

/-- Elements, a call on the object and a loop leave the heights as they are. -/
theorem row_heights : ∃ chunk code height, row.chunk = .ok chunk ∧ row.CallsFit ∧
    code ∈ chunk.routines ∧ RoutineHeights code height := by
  have h : row.chunk = .ok _ := rfl
  have fits : row.CallsFit := by
    simp [ClassTree.CallsFit, ClassTree.routines, row, blockCallsFit, Stmt.CallsFit, Expr.CallsFit,
      allCallsFit]
  obtain ⟨code, only⟩ := List.length_eq_one_iff.1 (ClassTree.chunk_routines h).length_eq.symm
  have member : code ∈ Chunk.routines _ := only ▸ List.mem_singleton_self code
  obtain ⟨height, heights⟩ := (ClassTree.chunk_heights h fits).1 code member
  exact ⟨_, code, height, h, fits, member, heights⟩

end JackCompiler
