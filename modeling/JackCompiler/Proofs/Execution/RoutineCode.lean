import JackCompiler.Proofs.Execution.StatementCode
/-!
# The instructions of a routine

A routine is a directive, a prologue and a body. The body declares every label of the routine, none
of them twice, so its instructions do what it means. Behind the last instruction there is nothing to
run: a body that completes without giving a word back never comes to a return.

        function …   the locals it declares are zero
        prologue     the object: argument 0 of a method, a new one of a constructor
        body         what it means, up to the return
-/

namespace JackCompiler

variable {calls : Calls} {className : String} {table : Table} {r : Routine}
  {code : List Instruction}

/-! ### The body -/

/-- The scope in front of the body of a routine. -/
def Routine.scope (r : Routine) (table : Table) : Scope :=
  (Scope.enter r.kind table).withParameters r.parameters

/-- What stands in front of the body of a routine: the directive and the prologue. -/
def Routine.front (className : String) (table : Table) (r : Routine) : List Instruction :=
  .function (qualified className r.name) (blockScope r.body (r.scope table)).localCount ::
    r.kind.prologue (table.count .field)

/-- The instructions of a routine are those in front of its body, and those of its body. -/
theorem Routine.code_eq_ok (h : r.code className table = .ok code) :
    ∃ body f, blockCode className r.body ⟨r.scope table, 0⟩ = .ok (body, f) ∧
      code = r.front className table ++ body := by
  obtain ⟨⟨body, f⟩, hb, h⟩ := generated_bind.1 h
  cases h
  have scope : f.scope = blockScope r.body (r.scope table) := blockCode_scope hb
  exact ⟨body, f, hb, by rw [Routine.front, ← scope]⟩

theorem RoutineKind.prologue_plain (kind : RoutineKind) (n : Word) :
    PlainCode (kind.prologue n) := by
  cases kind <;> simp [prologue, PlainCode, pushConstant, Instruction.isPlain]

theorem Routine.front_plain (className : String) (table : Table) (r : Routine) :
    PlainCode (r.front className table) :=
  plainCode_cons.2 ⟨rfl, r.kind.prologue_plain _⟩

/-- The instructions of a routine do what its body means, from where the body begins. -/
theorem Routine.body_realizes (h : r.code className table = .ok code) (fits : blockCallsFit r.body) :
    Realizes calls className code (r.front className table).length code.length
      (blockCompletes calls className r.body (r.scope table)) := by
  obtain ⟨body, f, hb, rfl⟩ := Routine.code_eq_ok h
  have distinct : (declaredLabels (r.front className table ++ body)).Nodup := by
    rw [declaredLabels_append, declaredLabels_plain (r.front_plain className table)]
    exact (blockCode_labels hb).distinct
  rw [List.length_append]
  exact blockCode_realizes distinct hb fits (placed_suffix _ _)

/-- Code that ends a program comes to a return exactly if what it means does. -/
theorem Realizes.returns_iff {pc : Nat} {meaning : Memory → Completion → Prop}
    (h : Realizes calls className code pc code.length meaning) {s : Machine} {w : Word}
    {rest : List Word} {m : Memory} :
    Returns calls className code (pc, s) w rest m ↔
      rest = s.stack ∧ meaning s.memory (.returned w m) := by
  constructor
  · rintro ⟨n, d, run, arrived, top, rfl⟩
    obtain ⟨c, hc, remains⟩ := h.backward run arrived
    cases c with
    | returned w' m' =>
      obtain ⟨top', rfl⟩ := remains
      obtain ⟨rfl, rfl⟩ := List.cons.inj (top.symm.trans top')
      exact ⟨rfl, hc⟩
    | normal m' =>
      -- behind the last instruction there is neither a step nor a return
      obtain ⟨k, t, -, run, -⟩ := remains
      cases run with
      | refl => simp [AtReturn] at arrived
      | step step _ =>
        obtain ⟨i, hi, -⟩ := step
        simp at hi
  · rintro ⟨rfl, hc⟩
    exact h.forward hc

/-- **The instructions of a body preserve its meaning.** From where the body begins, on any stack
and any memory, they come to a return with a word on top exactly if the body gives that word back,
with the memory that it leaves and the rest of the stack as it was. -/
theorem Routine.body_returns_iff (h : r.code className table = .ok code)
    (fits : blockCallsFit r.body) (s : Machine) (w : Word) (rest : List Word) (m : Memory) :
    Returns calls className code ((r.front className table).length, s) w rest m ↔
      rest = s.stack ∧
        blockCompletes calls className r.body (r.scope table) s.memory (.returned w m) :=
  (Routine.body_realizes h fits).returns_iff

/-- `function int pick(Array a, int i) { while (i < 0) { let i = i + 1; } return a[i]; }` -/
def pick : Routine where
  kind := .function
  returnType := .int
  name := "pick"
  parameters := [⟨.named "Array", "a", none⟩, ⟨.int, "i", none⟩]
  body := [
    .repeatWhile (.binary .less (.reference "i" none) (.constant 0 none) none)
      [.assign "i" (.binary .add (.reference "i" none) (.constant 1 none) none) none],
    .giveBack (some (.index (.reference "a" none) (.reference "i" none))) none]
  position := none

/-- Every word of the heap holds its own address, the array is at 10, and the subscript is 20. -/
def pickStart : Machine where
  stack := [7]
  memory := ⟨⟨fun _ _ => 0, id⟩, 0, fun slot => if slot = 0 then 10 else 20, fun _ => 0⟩
  element := 0
  scratch := fun _ => 0

/-- The element at 30 is returned above the word that was there, though no call ever returns. -/
theorem pick_returns : ∃ code, pick.code "Main" .empty = .ok code ∧
    Returns (fun _ _ _ _ _ => False) "Main" code ((pick.front "Main" .empty).length, pickStart) 30 [7]
      pickStart.memory := by
  have h : pick.code "Main" .empty = .ok _ := rfl
  have fits : blockCallsFit pick.body := by
    simp [pick, blockCallsFit, Stmt.CallsFit, Expr.CallsFit]
  refine ⟨_, h, (Routine.body_returns_iff h fits ..).2 ⟨rfl, .inr ⟨pickStart.memory, ?_, ?_⟩⟩⟩
  · -- 20 is not negative, so the loop is over at once
    exact Loop.done ⟨_, _, _, _, ⟨_, rfl, rfl, rfl⟩, ⟨rfl, rfl⟩, rfl, rfl⟩ (by decide)
  · exact .inl ⟨_, _, ⟨_, _, ⟨_, _, _, ⟨_, rfl, rfl, rfl⟩, ⟨_, rfl, rfl, rfl⟩, rfl⟩, rfl⟩, rfl⟩

/-! ### The whole routine -/

/-- The memory with zero in the first locals. -/
def Memory.clearLocals (m : Memory) (count : Word) : Memory :=
  { m with locals := fun slot => if slot < count then 0 else m.locals slot }

/-- How a routine finds the object it works on: a method in its first argument, and a constructor
by a call that makes room for the fields. -/
def RoutineKind.Enters (calls : Calls) (fieldCount : Word) :
    RoutineKind → Memory → Memory → Prop
  | function, m, m' => m' = m
  | method, m, m' => m' = { m with object := m.arguments 0 }
  | constructor, m, m' =>
    ∃ w m₁, calls.within "Memory.alloc" [fieldCount] m w m₁ ∧ m' = { m₁ with object := w }

/-- A word is absorbed into the first base register. -/
theorem absorbs_object :
    Absorbs calls className 1 [.pop .pointer 0]
      (fun ws m m' => ∃ w, ws = [w] ∧ m' = { m with object := w }) :=
  absorbs_pop (fun m w => { m with object := w }) fun _ _ => ⟨_, rfl, rfl, rfl⟩

theorem RoutineKind.prologue_changes (kind : RoutineKind) (n : Word) :
    Changes calls className (kind.prologue n) (kind.Enters calls n) := by
  cases kind with
  | function =>
    constructor
    · rintro s t rfl
      exact ⟨rfl, rfl⟩
    · rintro s m rfl
      exact ⟨s, rfl, rfl, rfl⟩
  | method =>
    have pushed : Pushes calls className [.push .arguments 0]
        (single fun m w m' => w = m.arguments 0 ∧ m' = m) :=
      pushes_push (·.arguments 0) fun _ => rfl
    refine (pushed.store absorbs_object).congr fun m m' => ?_
    constructor
    · rintro ⟨_, _, ⟨rfl, rfl⟩, rfl⟩
      rfl
    · rintro rfl
      exact ⟨_, m, ⟨rfl, rfl⟩, rfl⟩
  | constructor =>
    have allocated : Pushes calls className ([pushConstant n] ++ [callWith "Memory.alloc" 1]) _ :=
      (pushes_constant n).unary (reduces_call "Memory.alloc" 1 (by decide))
    refine (allocated.store absorbs_object).congr fun m m' => ?_
    constructor
    · rintro ⟨w, m₁, ⟨_, _, ⟨rfl, rfl⟩, hw⟩, rfl⟩
      exact ⟨w, m₁, hw, rfl⟩
    · rintro ⟨w, m₁, hw, rfl⟩
      exact ⟨w, m₁, ⟨_, _, ⟨rfl, rfl⟩, hw⟩, rfl⟩

theorem directive_changes (name : String) (count : Word) :
    Changes calls className [.function name count] fun m m' => m' = m.clearLocals count where
  sound effects := by
    obtain rfl := effects_singleton.1 effects
    exact ⟨rfl, rfl⟩
  complete := by
    rintro s _ rfl
    exact ⟨_, effects_singleton.2 rfl, rfl, rfl⟩

/-- From its first instruction, a routine clears the locals that its body declares, finds its
object, and then does what its body means. -/
theorem Routine.code_returns_iff (h : r.code className table = .ok code)
    (fits : blockCallsFit r.body) {s : Machine} {w : Word} {rest : List Word} {m : Memory} :
    Returns calls className code (0, s) w rest m ↔
      rest = s.stack ∧ ∃ m₁, r.kind.Enters calls (table.count .field)
          (s.memory.clearLocals (blockScope r.body (r.scope table)).localCount) m₁ ∧
        blockCompletes calls className r.body (r.scope table) m₁ (.returned w m) := by
  have body : Realizes calls className code _ code.length _ := Routine.body_realizes h fits
  obtain ⟨b, f, hb, rfl⟩ := Routine.code_eq_ok h
  have all : Placed (r.front className table ++ b) 0 (r.front className table ++ b) :=
    placed_suffix [] _
  have front : Changes calls className (r.front className table) _ :=
    (directive_changes _ _).append (r.kind.prologue_changes _)
  have entry := front.realizes (r.front_plain className table) (placed_append.1 all).1
  rw [Nat.zero_add] at entry
  rw [(entry.sequel body).returns_iff]
  refine and_congr_right fun _ => ?_
  constructor
  · rintro (⟨_, _, ⟨_, -, same⟩, -⟩ | ⟨m₁, ⟨_, ⟨_, rfl, enters⟩, same⟩, completes⟩)
    · cases same
    · cases same
      exact ⟨m₁, enters, completes⟩
  · rintro ⟨m₁, enters, completes⟩
    exact .inr ⟨m₁, ⟨m₁, ⟨_, rfl, enters⟩, rfl⟩, completes⟩

end JackCompiler
