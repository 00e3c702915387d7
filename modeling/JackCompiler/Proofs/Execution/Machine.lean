import JackCompiler.Proofs.Generation.PlainCode
/-!
# The stack machine

What instructions do, on words of sixteen bits. The state of the machine is its stack, the memory
that a routine sees, the second base register and the scratch cells. Fields are addressed through
the first base register, which holds the object of the routine, elements through the second.

A call is one step. What the routine called does is not fixed here: `Calls` is any relation between
its name, its arguments, the store before, the word given back and the store behind. A call may use
the scratch cells as it likes, and leaves the locals, the arguments and both base registers.

        no jump ──▶ its effect, then the next instruction
        goto ──▶ the label            if-goto ──▶ pops; the label unless the word is zero
        return ──▶ no step: the run has arrived
-/

namespace JackCompiler

/-- A word of the machine. -/
abbrev Word := UInt16

/-- Truth as a word: all ones, or zero. -/
def truth (b : Bool) : Word := if b then 0xFFFF else 0

/-- Whether a word comes before another, both read with a sign. -/
def precedes (a b : Word) : Bool := a.toInt16 < b.toInt16

/-- What all routines share: the static variables of every class, and the heap. -/
structure Store where
  statics : String → Word → Word
  heap : Word → Word

/-- What a routine sees: the store, the object it works on, its arguments and its locals. -/
structure Memory where
  store : Store
  object : Word
  arguments : Word → Word
  locals : Word → Word

namespace Memory

/-- The memory with another word at an address of the heap. -/
def setHeap (m : Memory) (address w : Word) : Memory :=
  { m with store := { m.store with heap := Function.update m.store.heap address w } }

/-- The memory with another word in a static variable. -/
def setStatic (m : Memory) (className : String) (slot w : Word) : Memory :=
  let own := Function.update (m.store.statics className) slot w
  { m with store := { m.store with statics := Function.update m.store.statics className own } }

/-- The memory with another word in an argument. -/
def setArgument (m : Memory) (slot w : Word) : Memory :=
  { m with arguments := Function.update m.arguments slot w }

/-- The memory with another word in a local. -/
def setLocal (m : Memory) (slot w : Word) : Memory :=
  { m with locals := Function.update m.locals slot w }

end Memory

/-- What calls may do: the name of the routine, the arguments in order, the store before, the word
given back, and the store behind. -/
abbrev Calls := String → List Word → Store → Word → Store → Prop

/-- A call in a memory. It reaches the store alone. -/
def Calls.within (calls : Calls) (name : String) (arguments : List Word) (m : Memory) (w : Word)
    (m' : Memory) : Prop :=
  ∃ store, calls name arguments m.store w store ∧ m' = { m with store := store }

/-- The state of the machine. The top of the stack comes first. -/
structure Machine where
  stack : List Word
  memory : Memory
  element : Word
  scratch : Word → Word

namespace Machine

/-- The word in a slot. There are two base registers. -/
def read (className : String) (s : Machine) : Segment → Word → Option Word
  | .constant, n => some n
  | .locals, i => some (s.memory.locals i)
  | .arguments, i => some (s.memory.arguments i)
  | .this, i => some (s.memory.store.heap (s.memory.object + i))
  | .that, i => some (s.memory.store.heap (s.element + i))
  | .pointer, i => if i = 0 then some s.memory.object else if i = 1 then some s.element else none
  | .temp, i => some (s.scratch i)
  | .statics, i => some (s.memory.store.statics className i)

/-- The machine with another word in a slot. Numbers are no places. -/
def write (className : String) (s : Machine) (segment : Segment) (i w : Word) : Option Machine :=
  match segment with
  | .constant => none
  | .locals => some { s with memory := s.memory.setLocal i w }
  | .arguments => some { s with memory := s.memory.setArgument i w }
  | .this => some { s with memory := s.memory.setHeap (s.memory.object + i) w }
  | .that => some { s with memory := s.memory.setHeap (s.element + i) w }
  | .pointer =>
    if i = 0 then some { s with memory := { s.memory with object := w } }
    else if i = 1 then some { s with element := w } else none
  | .temp => some { s with scratch := Function.update s.scratch i w }
  | .statics => some { s with memory := s.memory.setStatic className i w }

end Machine

/-- What an operation makes of the top of the stack. -/
def Operation.apply : Operation → List Word → Option (List Word)
  | .add, b :: a :: rest => some ((a + b) :: rest)
  | .sub, b :: a :: rest => some ((a - b) :: rest)
  | .neg, a :: rest => some ((-a) :: rest)
  | .eq, b :: a :: rest => some (truth (a = b) :: rest)
  | .gt, b :: a :: rest => some (truth (precedes b a) :: rest)
  | .lt, b :: a :: rest => some (truth (precedes a b) :: rest)
  | .and, b :: a :: rest => some ((a &&& b) :: rest)
  | .or, b :: a :: rest => some ((a ||| b) :: rest)
  | .not, a :: rest => some ((~~~a) :: rest)
  | _, _ => none

/-- The number of the instruction behind a label. -/
def labelPlace (program : List Instruction) (name : String) : Nat :=
  program.findIdx (· = .label name)

namespace Instruction

/-- What an instruction that is no jump does to the machine. -/
def Effect (calls : Calls) (className : String) : Instruction → Machine → Machine → Prop
  | push segment slot, s, t =>
    ∃ w, s.read className segment slot = some w ∧ t = { s with stack := w :: s.stack }
  | pop segment slot, s, t =>
    ∃ w rest, s.stack = w :: rest ∧
      { s with stack := rest }.write className segment slot w = some t
  | operate operation, s, t =>
    ∃ stack, operation.apply s.stack = some stack ∧ t = { s with stack := stack }
  | call name arity, s, t =>
    ∃ arguments rest w memory scratch, s.stack = arguments.reverse ++ rest ∧
      arguments.length = arity.toNat ∧ calls.within name arguments s.memory w memory ∧
      t = { s with stack := w :: rest, memory := memory, scratch := scratch }
  | label _, s, t => t = s
  | function _ count, s, t =>
    t = { s with memory := { s.memory with
      locals := fun i => if i < count then 0 else s.memory.locals i } }
  | goto _, _, _ | ifGoto _, _, _ | giveBack, _, _ => False

end Instruction

/-- The number of the next instruction, and the machine in front of it. -/
abbrev Config := Nat × Machine

variable (calls : Calls) (className : String)

/-- One step of a program. -/
def Step (program : List Instruction) (c d : Config) : Prop :=
  ∃ i, program[c.1]? = some i ∧
    match i with
    | .goto name => d = (labelPlace program name, c.2)
    | .ifGoto name => ∃ w rest, c.2.stack = w :: rest ∧
        d = (if w = 0 then c.1 + 1 else labelPlace program name, { c.2 with stack := rest })
    | .giveBack => False
    | i => i.Effect calls className c.2 d.2 ∧ d.1 = c.1 + 1

/-- A number of steps of a program. -/
inductive Run (program : List Instruction) : Nat → Config → Config → Prop
  | refl (c : Config) : Run program 0 c c
  | step {n : Nat} {c d e : Config} : Step calls className program c d → Run program n d e →
      Run program (n + 1) c e

/-- Whether the next instruction is a return. -/
def AtReturn (program : List Instruction) (c : Config) : Prop := program[c.1]? = some .giveBack

/-- The program comes to a return with a word on top of a stack, and a memory. -/
def Returns (program : List Instruction) (c : Config) (w : Word) (rest : List Word) (m : Memory) :
    Prop :=
  ∃ n d, Run calls className program n c d ∧ AtReturn program d ∧ d.2.stack = w :: rest ∧
    d.2.memory = m

variable {calls className} {program : List Instruction}

/-! ### Runs compose -/

theorem Run.trans {n k : Nat} {c d e : Config} (h : Run calls className program n c d)
    (h' : Run calls className program k d e) : Run calls className program (n + k) c e := by
  induction h with
  | refl => rwa [Nat.zero_add]
  | step hs _ ih => rw [Nat.add_right_comm]; exact .step hs (ih h')

theorem Run.single {c d : Config} (h : Step calls className program c d) :
    Run calls className program 1 c d := .step h (.refl d)

/-- A run that comes to a return begins with a step, unless it is there. -/
theorem Run.head {n pc : Nat} {s : Machine} {d : Config} {i : Instruction}
    (h : Run calls className program n (pc, s) d) (arrived : AtReturn program d)
    (here : program[pc]? = some i) (hi : i ≠ .giveBack) :
    ∃ k c, n = k + 1 ∧ Step calls className program (pc, s) c ∧
      Run calls className program k c d := by
  cases h with
  | refl =>
    have : i = .giveBack := Option.some.inj (here.symm.trans arrived)
    exact absurd this hi
  | step hs h' => exact ⟨_, _, rfl, hs, h'⟩

/-! ### What one step does, by the instruction -/

theorem step_of_effect {pc : Nat} {s t : Machine} {i : Instruction} (here : program[pc]? = some i)
    (plain : i.isPlain) (h : i.Effect calls className s t) :
    Step calls className program (pc, s) (pc + 1, t) := by
  refine ⟨i, here, ?_⟩
  cases i <;> first | exact ⟨h, rfl⟩ | simp [Instruction.isPlain] at plain

theorem effect_of_step {pc : Nat} {s : Machine} {c : Config} {i : Instruction}
    (here : program[pc]? = some i) (plain : i.isPlain)
    (h : Step calls className program (pc, s) c) :
    i.Effect calls className s c.2 ∧ c = (pc + 1, c.2) := by
  obtain ⟨j, hj, h⟩ := h
  obtain rfl : i = j := Option.some.inj (here.symm.trans hj)
  cases i <;> first
    | exact ⟨h.1, Prod.ext h.2 rfl⟩
    | simp [Instruction.isPlain] at plain

theorem step_label {pc : Nat} {s : Machine} {c : Config} {name : String}
    (here : program[pc]? = some (.label name)) :
    Step calls className program (pc, s) c ↔ c = (pc + 1, s) := by
  simp [Step, here, Instruction.Effect, Prod.ext_iff, and_comm]

theorem step_goto {pc : Nat} {s : Machine} {c : Config} {name : String}
    (here : program[pc]? = some (.goto name)) :
    Step calls className program (pc, s) c ↔ c = (labelPlace program name, s) := by
  simp [Step, here]

theorem step_ifGoto {pc : Nat} {s : Machine} {c : Config} {name : String} {w : Word}
    {rest : List Word} (here : program[pc]? = some (.ifGoto name)) (top : s.stack = w :: rest) :
    Step calls className program (pc, s) c ↔
      c = (if w = 0 then pc + 1 else labelPlace program name, { s with stack := rest }) := by
  simp [Step, here, top]

/-! ### A piece of code inside a program -/

/-- The program has a piece of code from a number on. -/
def Placed (program : List Instruction) : Nat → List Instruction → Prop
  | _, [] => True
  | pc, i :: code => program[pc]? = some i ∧ Placed program (pc + 1) code

theorem placed_append {pc : Nat} {a b : List Instruction} :
    Placed program pc (a ++ b) ↔ Placed program pc a ∧ Placed program (pc + a.length) b := by
  induction a generalizing pc with
  | nil => simp [Placed]
  | cons i a ih =>
    have : pc + 1 + a.length = pc + (a.length + 1) := by omega
    simp only [List.cons_append, Placed, ih, List.length_cons, this, and_assoc]

/-- A program has its own end from where that begins. -/
theorem placed_suffix (before code : List Instruction) :
    Placed (before ++ code) before.length code := by
  induction code generalizing before with
  | nil => trivial
  | cons i code ih =>
    refine ⟨by simp, ?_⟩
    simpa [List.append_assoc] using ih (before ++ [i])

/-! ### Code without jumps -/

/-- What a piece of code without jumps does to the machine. -/
def Effects (calls : Calls) (className : String) : List Instruction → Machine → Machine → Prop
  | [], s, t => t = s
  | i :: code, s, t => ∃ m, i.Effect calls className s m ∧ Effects calls className code m t

theorem effects_append {a b : List Instruction} {s t : Machine} :
    Effects calls className (a ++ b) s t ↔
      ∃ m, Effects calls className a s m ∧ Effects calls className b m t := by
  induction a generalizing s with
  | nil => simp [Effects]
  | cons i a ih =>
    simp only [List.cons_append, Effects, ih]
    constructor
    · rintro ⟨m, hi, m', ha, hb⟩
      exact ⟨m', ⟨m, hi, ha⟩, hb⟩
    · rintro ⟨m', ⟨m, hi, ha⟩, hb⟩
      exact ⟨m, hi, m', ha, hb⟩

@[simp] theorem effects_singleton {i : Instruction} {s t : Machine} :
    Effects calls className [i] s t ↔ i.Effect calls className s t := by
  simp [Effects]

/-- Code without jumps is run from its first instruction to the one behind it. -/
theorem run_of_effects {code : List Instruction} {pc : Nat} {s t : Machine}
    (plain : PlainCode code) (placed : Placed program pc code)
    (h : Effects calls className code s t) :
    Run calls className program code.length (pc, s) (pc + code.length, t) := by
  induction code generalizing pc s with
  | nil => obtain rfl : t = s := h; exact .refl _
  | cons i code ih =>
    obtain ⟨m, hi, h⟩ := h
    obtain ⟨first, plain⟩ := plainCode_cons.1 plain
    have rest := ih plain placed.2 h
    rw [show pc + 1 + code.length = pc + (code.length + 1) by omega] at rest
    exact .step (step_of_effect placed.1 first hi) rest

/-- A run that comes to a return passes through all of the code without jumps in front of it. -/
theorem effects_of_run {code : List Instruction} {pc n : Nat} {s : Machine} {d : Config}
    (plain : PlainCode code) (placed : Placed program pc code)
    (h : Run calls className program n (pc, s) d) (arrived : AtReturn program d) :
    ∃ k t, n = code.length + k ∧ Effects calls className code s t ∧
      Run calls className program k (pc + code.length, t) d := by
  induction code generalizing pc n s with
  | nil => exact ⟨n, s, by simp, rfl, h⟩
  | cons i code ih =>
    obtain ⟨hi, plain⟩ := plainCode_cons.1 plain
    obtain ⟨k, c, rfl, hs, h⟩ := h.head arrived placed.1 (by rintro rfl; cases hi)
    obtain ⟨effect, hc⟩ := effect_of_step placed.1 hi hs
    rw [hc] at h
    obtain ⟨k, t, rfl, effects, h⟩ := ih plain placed.2 h
    refine ⟨k, t, by simp; omega, ⟨c.2, effect, effects⟩, ?_⟩
    rwa [show pc + (i :: code).length = pc + 1 + code.length by simp; omega]

end JackCompiler
