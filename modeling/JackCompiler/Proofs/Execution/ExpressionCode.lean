import JackCompiler.Proofs.Execution.Meaning
/-!
# The instructions of an expression

The instructions of an expression push its value and leave the rest of the stack alone. The
statement is an equivalence: the code without jumps takes the machine from one state to another
exactly if the expression yields the word pushed. The second base register and the scratch cells
stay out of it, as nothing reads them that has not set them.

Two notions carry the induction over the tree. Code *pushes* words if it leaves them above the
stack that was there, and code *reduces* words if it takes that many off the stack and leaves one.
What an operator or a call does is a reduction of what its operands have pushed.
-/

namespace JackCompiler

variable {calls : Calls} {className : String}

/-! ### Pushing and reducing -/

/-- The code pushes words, the last on top, as the meaning says. -/
structure Pushes (calls : Calls) (className : String) (code : List Instruction)
    (meaning : Memory → List Word → Memory → Prop) : Prop where
  sound : ∀ {s t : Machine}, Effects calls className code s t →
    ∃ ws, t.stack = ws.reverse ++ s.stack ∧ meaning s.memory ws t.memory
  complete : ∀ {s : Machine} {ws : List Word} {m : Memory}, meaning s.memory ws m →
    ∃ t, Effects calls className code s t ∧ t.stack = ws.reverse ++ s.stack ∧ t.memory = m

/-- The code takes a number of words off the stack and pushes one, as the meaning says. -/
structure Reduces (calls : Calls) (className : String) (arity : Nat) (code : List Instruction)
    (meaning : List Word → Memory → Word → Memory → Prop) : Prop where
  sound : ∀ {s t : Machine} {ws rest : List Word}, ws.length = arity →
    s.stack = ws.reverse ++ rest → Effects calls className code s t →
    ∃ w, t.stack = w :: rest ∧ meaning ws s.memory w t.memory
  complete : ∀ {s : Machine} {ws rest : List Word} {w : Word} {m : Memory}, ws.length = arity →
    s.stack = ws.reverse ++ rest → meaning ws s.memory w m →
    ∃ t, Effects calls className code s t ∧ t.stack = w :: rest ∧ t.memory = m

/-- A meaning that gives one word. -/
def single (meaning : Memory → Word → Memory → Prop) : Memory → List Word → Memory → Prop :=
  fun m ws m' => ∃ w, ws = [w] ∧ meaning m w m'

theorem single_length {meaning : Memory → Word → Memory → Prop} {m m' : Memory} {ws : List Word}
    (h : single meaning m ws m') : ws.length = 1 := by
  obtain ⟨w, rfl, -⟩ := h; rfl

theorem Pushes.congr {code : List Instruction} {a b : Memory → List Word → Memory → Prop}
    (h : Pushes calls className code a) (iff : ∀ m ws m', a m ws m' ↔ b m ws m') :
    Pushes calls className code b where
  sound effects := by
    obtain ⟨ws, top, meaning⟩ := h.sound effects
    exact ⟨ws, top, (iff ..).1 meaning⟩
  complete meaning := h.complete ((iff ..).2 meaning)

theorem Reduces.congr {arity : Nat} {code : List Instruction}
    {a b : List Word → Memory → Word → Memory → Prop} (h : Reduces calls className arity code a)
    (iff : ∀ ws m w m', ws.length = arity → (a ws m w m' ↔ b ws m w m')) :
    Reduces calls className arity code b where
  sound length top effects := by
    obtain ⟨w, top', meaning⟩ := h.sound length top effects
    exact ⟨w, top', (iff _ _ _ _ length).1 meaning⟩
  complete length top meaning := h.complete length top ((iff _ _ _ _ length).2 meaning)

/-- No code pushes nothing. -/
theorem pushes_nil : Pushes calls className [] fun m ws m' => ws = [] ∧ m' = m where
  sound := by rintro s t rfl; exact ⟨[], rfl, rfl, rfl⟩
  complete := by rintro s ws m ⟨rfl, rfl⟩; exact ⟨s, rfl, rfl, rfl⟩

/-- Code behind code pushes onto what that has pushed. -/
theorem Pushes.append {a b : List Instruction} {first second : Memory → List Word → Memory → Prop}
    (ha : Pushes calls className a first) (hb : Pushes calls className b second) :
    Pushes calls className (a ++ b) fun m ws m' =>
      ∃ xs m₁ ys, first m xs m₁ ∧ second m₁ ys m' ∧ ws = xs ++ ys where
  sound effects := by
    obtain ⟨m, effects, effects'⟩ := effects_append.1 effects
    obtain ⟨xs, top, hx⟩ := ha.sound effects
    obtain ⟨ys, top', hy⟩ := hb.sound effects'
    exact ⟨xs ++ ys, by simp [top, top'], xs, _, ys, hx, hy, rfl⟩
  complete := by
    rintro s ws m ⟨xs, m₁, ys, hx, hy, rfl⟩
    obtain ⟨t, effects, top, rfl⟩ := ha.complete hx
    obtain ⟨u, effects', top', memory⟩ := hb.complete hy
    exact ⟨u, effects_append.2 ⟨t, effects, effects'⟩, by simp [top, top'], memory⟩

/-- Code that reduces as many words as were pushed leaves one. -/
theorem Pushes.reduce {a b : List Instruction} {arity : Nat}
    {operands : Memory → List Word → Memory → Prop}
    {result : List Word → Memory → Word → Memory → Prop}
    (ha : Pushes calls className a operands) (hb : Reduces calls className arity b result)
    (count : ∀ {m ws m'}, operands m ws m' → ws.length = arity) :
    Pushes calls className (a ++ b)
      (single fun m w m' => ∃ ws m₁, operands m ws m₁ ∧ result ws m₁ w m') where
  sound effects := by
    obtain ⟨m, effects, effects'⟩ := effects_append.1 effects
    obtain ⟨ws, top, hw⟩ := ha.sound effects
    obtain ⟨w, top', h⟩ := hb.sound (count hw) top effects'
    exact ⟨[w], top', w, rfl, ws, _, hw, h⟩
  complete := by
    rintro s _ m ⟨w, rfl, ws, m₁, hw, h⟩
    obtain ⟨t, effects, top, rfl⟩ := ha.complete hw
    obtain ⟨u, effects', top', memory⟩ := hb.complete (count hw) top h
    exact ⟨u, effects_append.2 ⟨t, effects, effects'⟩, top', memory⟩

theorem Pushes.congr_single {code : List Instruction} {a b : Memory → Word → Memory → Prop}
    (h : Pushes calls className code (single a)) (iff : ∀ m w m', a m w m' ↔ b m w m') :
    Pushes calls className code (single b) :=
  h.congr fun m ws m' => by simp only [single, iff]

/-- One word pushed and reduced. -/
theorem Pushes.unary {a b : List Instruction} {operand : Memory → Word → Memory → Prop}
    {result : List Word → Memory → Word → Memory → Prop}
    (ha : Pushes calls className a (single operand)) (hb : Reduces calls className 1 b result) :
    Pushes calls className (a ++ b)
      (single fun m w m' => ∃ x m₁, operand m x m₁ ∧ result [x] m₁ w m') := by
  refine (ha.reduce hb single_length).congr_single fun m w m' => ?_
  constructor
  · rintro ⟨_, m₁, ⟨x, rfl, hx⟩, h⟩
    exact ⟨x, m₁, hx, h⟩
  · rintro ⟨x, m₁, hx, h⟩
    exact ⟨[x], m₁, ⟨x, rfl, hx⟩, h⟩

/-- Two words pushed one after the other, and reduced. -/
theorem Pushes.binary {a b c : List Instruction} {left right : Memory → Word → Memory → Prop}
    {result : List Word → Memory → Word → Memory → Prop}
    (ha : Pushes calls className a (single left)) (hb : Pushes calls className b (single right))
    (hc : Reduces calls className 2 c result) :
    Pushes calls className (a ++ b ++ c) (single fun m w m' =>
      ∃ x m₁ y m₂, left m x m₁ ∧ right m₁ y m₂ ∧ result [x, y] m₂ w m') := by
  refine ((ha.append hb).reduce hc ?_).congr_single fun m w m' => ?_
  · rintro m _ m' ⟨xs, m₁, ys, hx, hy, rfl⟩
    rw [List.length_append, single_length hx, single_length hy]
  · constructor
    · rintro ⟨_, m₂, ⟨_, m₁, _, ⟨x, rfl, hx⟩, ⟨y, rfl, hy⟩, rfl⟩, h⟩
      exact ⟨x, m₁, y, m₂, hx, hy, h⟩
    · rintro ⟨x, m₁, y, m₂, hx, hy, h⟩
      exact ⟨[x, y], m₂, ⟨[x], m₁, [y], ⟨x, rfl, hx⟩, ⟨y, rfl, hy⟩, rfl⟩, h⟩

/-! ### Single instructions -/

/-- What a push gives is read off the memory, unless it is an element or a scratch cell. -/
theorem pushes_push {segment : Segment} {slot : Word} (value : Memory → Word)
    (h : ∀ s : Machine, s.read className segment slot = some (value s.memory)) :
    Pushes calls className [.push segment slot] (single fun m w m' => w = value m ∧ m' = m) where
  sound := by
    intro s t effects
    obtain ⟨w, hw, rfl⟩ := effects_singleton.1 effects
    obtain rfl : value s.memory = w := Option.some.inj ((h s).symm.trans hw)
    exact ⟨[value s.memory], rfl, _, rfl, rfl, rfl⟩
  complete := by
    rintro s _ m ⟨w, rfl, rfl, rfl⟩
    exact ⟨_, effects_singleton.2 ⟨_, h s, rfl⟩, rfl, rfl⟩

theorem pushes_constant (n : Word) :
    Pushes calls className [pushConstant n] (single fun m w m' => w = n ∧ m' = m) :=
  pushes_push (fun _ => n) fun _ => rfl

theorem pushes_object :
    Pushes calls className [pushObject] (single fun m w m' => w = m.object ∧ m' = m) :=
  pushes_push (·.object) fun _ => rfl

theorem pushes_variable (v : Variable) :
    Pushes calls className [v.push] (single fun m w m' => w = m.get className v ∧ m' = m) :=
  pushes_push (·.get className v) fun s => by
    cases hv : v.storage <;> simp [Machine.read, Memory.get, hv, Storage.segment]

/-- A call reduces its arguments, if their number is a word. -/
theorem reduces_call (name : String) (arity : Nat) (fits : arity < 65536) :
    Reduces calls className arity [callWith name arity] (calls.within name) where
  sound := by
    intro s t ws rest length top effects
    obtain ⟨xs, rest', w, m, scratch, top', length', h, rfl⟩ := effects_singleton.1 effects
    rw [UInt16.toNat_ofNat_of_lt' fits] at length'
    obtain ⟨reverse, rfl⟩ : xs.reverse = ws.reverse ∧ rest' = rest := by
      refine List.append_inj (top'.symm.trans top) ?_
      rw [List.length_reverse, List.length_reverse, length, length']
    obtain rfl := List.reverse_inj.1 reverse
    exact ⟨w, rfl, h⟩
  complete := by
    intro s ws rest w m length top h
    refine ⟨⟨w :: rest, m, s.element, s.scratch⟩, effects_singleton.2 ?_, rfl, rfl⟩
    exact ⟨ws, rest, w, m, s.scratch, top, by rw [UInt16.toNat_ofNat_of_lt' fits, length], h, rfl⟩

/-- An operation reduces its operands to a value, and keeps the memory. -/
theorem reduces_operate {operation : Operation} {arity : Nat}
    {meaning : List Word → Memory → Word → Memory → Prop}
    (h : ∀ ws rest, ws.length = arity → ∃ value,
      operation.apply (ws.reverse ++ rest) = some (value :: rest) ∧
        ∀ m w m', meaning ws m w m' ↔ w = value ∧ m' = m) :
    Reduces calls className arity [.operate operation] meaning where
  sound := by
    intro s t ws rest length top effects
    obtain ⟨stack, apply, rfl⟩ := effects_singleton.1 effects
    obtain ⟨value, apply', iff⟩ := h ws rest length
    obtain rfl : value :: rest = stack := by
      rw [top, apply'] at apply; exact Option.some.inj apply
    exact ⟨value, rfl, (iff ..).2 ⟨rfl, rfl⟩⟩
  complete := by
    intro s ws rest w m length top hw
    obtain ⟨value, apply, iff⟩ := h ws rest length
    obtain ⟨rfl, rfl⟩ := (iff ..).1 hw
    exact ⟨_, effects_singleton.2 ⟨_, by rw [top, apply], rfl⟩, rfl, rfl⟩

theorem UnaryOp.reduces (op : UnaryOp) :
    Reduces calls className 1 [op.instruction]
      (fun ws m w m' => ∃ a, ws = [a] ∧ w = op.value a ∧ m' = m) := by
  cases op <;> refine reduces_operate fun ws rest length => ?_ <;>
    obtain ⟨a, rfl⟩ := List.length_eq_one_iff.1 length <;> exact ⟨_, rfl, by simp [value]⟩

theorem BinaryOp.reduces (op : BinaryOp) :
    Reduces calls className 2 [op.instruction]
      (fun ws m w m' => ∃ a b, ws = [a, b] ∧ op.Yields calls a b m w m') := by
  have product (name : String) : Reduces calls className 2 [callWith name 2]
      (fun ws m w m' => ∃ a b, ws = [a, b] ∧ calls.within name [a, b] m w m') := by
    refine (reduces_call name 2 (by decide)).congr fun ws m w m' length => ?_
    obtain ⟨a, b, rfl⟩ := List.length_eq_two.1 length
    simp
  cases op with
  | multiply => exact product _
  | divide => exact product _
  | _ =>
    refine reduces_operate fun ws rest length => ?_
    obtain ⟨a, b, rfl⟩ := List.length_eq_two.1 length
    exact ⟨_, rfl, by simp [Yields]⟩

/-- An array and a subscript are reduced to the element: their sum becomes the second base. -/
theorem reduces_element :
    Reduces calls className 2 (selectElement ++ [.push .that 0])
      (fun ws m w m' => ∃ a i, ws = [a, i] ∧ w = m.store.heap (a + i) ∧ m' = m) where
  sound := by
    intro s t ws rest length top effects
    obtain ⟨a, i, rfl⟩ := List.length_eq_two.1 length
    obtain ⟨_, ⟨stack, apply, rfl⟩, _, ⟨w, rest', top', write⟩, _, ⟨w', read, rfl⟩, rfl⟩ := effects
    obtain rfl : (a + i) :: rest = stack := by
      rw [top] at apply; exact Option.some.inj apply
    obtain ⟨rfl, rfl⟩ := List.cons.inj top'
    obtain rfl := Option.some.inj write
    refine ⟨w', rfl, a, i, rfl, ?_, rfl⟩
    simpa [Machine.read, eq_comm] using read
  complete := by
    rintro s _ rest w m - top ⟨a, i, rfl, rfl, rfl⟩
    refine ⟨⟨s.memory.store.heap (a + i) :: rest, s.memory, a + i, s.scratch⟩, ?_, rfl, rfl⟩
    refine ⟨{ s with stack := (a + i) :: rest }, ⟨_, by rw [top]; rfl, rfl⟩,
      { s with stack := rest, element := a + i }, ⟨_, _, rfl, rfl⟩, _, ⟨_, rfl, ?_⟩, rfl⟩
    simp

/-! ### Strings -/

/-- Bytes are appended to a string that code has pushed. -/
theorem Pushes.appendBytes {code : List Instruction} {string : Memory → Word → Memory → Prop}
    (h : Pushes calls className code (single string)) (bytes : List UInt8) :
    Pushes calls className
      (code ++ bytes.flatMap fun b => [pushConstant b.toUInt16, callWith "String.appendChar" 2])
      (single fun m w m' => ∃ w₁ m₁, string m w₁ m₁ ∧ appendBytes calls bytes w₁ m₁ w m') := by
  induction bytes generalizing code string with
  | nil =>
    rw [List.flatMap_nil, List.append_nil]
    exact h.congr_single fun m w m' => by simp [JackCompiler.appendBytes]
  | cons byte bytes ih =>
    have call := h.binary (pushes_constant byte.toUInt16)
      (reduces_call "String.appendChar" 2 (by decide))
    have all := ih call
    rw [List.append_assoc, List.append_assoc] at all
    refine all.congr_single fun m w m' => ?_
    constructor
    · rintro ⟨w₁, m₁, ⟨x, m₂, _, _, hx, ⟨rfl, rfl⟩, hcall⟩, rest⟩
      exact ⟨x, _, hx, w₁, m₁, hcall, rest⟩
    · rintro ⟨x, m₂, hx, w₁, m₁, hcall, rest⟩
      exact ⟨w₁, m₁, ⟨x, m₂, _, _, hx, ⟨rfl, rfl⟩, hcall⟩, rest⟩

theorem stringCode_pushes {value : String} {code : List Instruction}
    (h : stringCode value = .ok code) :
    Pushes calls className code (single (makeString calls value)) := by
  unfold stringCode at h
  split at h
  · cases h
    have new : Pushes calls className ([pushConstant _] ++ [callWith "String.new" 1]) _ :=
      (pushes_constant (UInt16.ofNat value.utf8ByteSize)).unary
        (reduces_call "String.new" 1 (by decide))
    refine (new.appendBytes (Utf8.bytes value)).congr_single fun m w m' => ?_
    constructor
    · rintro ⟨w₁, m₁, ⟨_, _, ⟨rfl, rfl⟩, hcall⟩, rest⟩
      exact ⟨w₁, m₁, hcall, rest⟩
    · rintro ⟨w₁, m₁, hcall, rest⟩
      exact ⟨w₁, m₁, ⟨_, _, ⟨rfl, rfl⟩, hcall⟩, rest⟩
  · cases h

/-! ### Expressions -/

/-- A receiver and arguments pushed, and a call of a routine on them. -/
theorem Pushes.callOn {a b : List Instruction} {object : Memory → Word}
    {arguments : Memory → List Word → Memory → Prop} {arity : Nat} (name : String)
    (ha : Pushes calls className a (single fun m w m' => w = object m ∧ m' = m))
    (hb : Pushes calls className b arguments)
    (count : ∀ {m ws m'}, arguments m ws m' → ws.length = arity) (fits : arity < 65535) :
    Pushes calls className (a ++ b ++ [callWith name (arity + 1)]) (single fun m w m' =>
      ∃ ws m₁, arguments m ws m₁ ∧ calls.within name (object m :: ws) m₁ w m') := by
  refine ((ha.append hb).reduce (reduces_call name _ (by omega)) ?_).congr_single fun m w m' => ?_
  · rintro m _ m' ⟨xs, m₁, ys, hx, hy, rfl⟩
    rw [List.length_append, single_length hx, count hy, Nat.add_comm]
  · constructor
    · rintro ⟨_, m₁, ⟨_, _, ws, ⟨_, rfl, rfl, rfl⟩, hw, rfl⟩, h⟩
      exact ⟨ws, m₁, hw, h⟩
    · rintro ⟨ws, m₁, hw, h⟩
      exact ⟨_, m₁, ⟨_, _, ws, ⟨_, rfl, rfl, rfl⟩, hw, rfl⟩, h⟩

/-- Arguments pushed, and a call of a routine on them. -/
theorem Pushes.call {code : List Instruction} {arguments : Memory → List Word → Memory → Prop}
    {arity : Nat} (name : String) (h : Pushes calls className code arguments)
    (count : ∀ {m ws m'}, arguments m ws m' → ws.length = arity) (fits : arity < 65535) :
    Pushes calls className (code ++ [callWith name arity]) (single fun m w m' =>
      ∃ ws m₁, arguments m ws m₁ ∧ calls.within name ws m₁ w m') :=
  h.reduce (reduces_call name _ (by omega)) count

variable {site : Site}

theorem yieldAll_length {es : List Expr} {m m' : Memory} {ws : List Word}
    (h : yieldAll calls site es m ws m') : ws.length = es.length := by
  induction es generalizing m ws with
  | nil => rw [h.1]; rfl
  | cons e es ih =>
    obtain ⟨a, m₁, as, -, h, rfl⟩ := h
    rw [List.length_cons, ih h, List.length_cons]

mutual

/-- The instructions of an expression push the word that it yields. -/
theorem Expr.code_pushes : ∀ {e : Expr} {code : List Instruction}, e.code site = .ok code →
    e.CallsFit → Pushes calls site.className code (single (e.Yields calls site))
  | .constant value _, _, h, _ => by
    cases h
    exact pushes_constant value
  | .boolean false, _, h, _ => by
    cases h
    exact pushes_constant 0
  | .boolean true, _, h, _ => by
    cases h
    refine ((pushes_constant 0).unary UnaryOp.not.reduces).congr_single fun m w m' => ?_
    constructor
    · rintro ⟨_, _, ⟨rfl, rfl⟩, _, same, rfl, rfl⟩
      cases same
      exact ⟨rfl, rfl⟩
    · rintro ⟨rfl, rfl⟩
      exact ⟨_, _, ⟨rfl, rfl⟩, _, rfl, rfl, rfl⟩
  | .string value, _, h, _ => stringCode_pushes h
  | .null, _, h, _ => by
    cases h
    exact pushes_constant 0
  | .this position, _, h, _ => by
    obtain ⟨i, hi, h⟩ := generated_bind.1 h
    obtain ⟨receiver, rfl⟩ := Site.receiver_eq_ok.1 hi
    cases h
    exact pushes_object.congr_single fun m w m' => by simp [Expr.Yields, receiver]
  | .reference name position, _, h, _ => by
    obtain ⟨v, hv, h⟩ := generated_bind.1 h
    cases h
    refine (pushes_variable v).congr_single fun m w m' => ?_
    simp [Expr.Yields, Site.lookup_eq_ok.1 hv]
  | .binary op left right _, _, h, fits => by
    obtain ⟨a, ha, h⟩ := generated_bind.1 h
    obtain ⟨b, hb, h⟩ := generated_bind.1 h
    cases h
    refine ((Expr.code_pushes ha fits.1).binary (Expr.code_pushes hb fits.2)
      op.reduces).congr_single fun m w m' => ?_
    simp [Expr.Yields]
  | .unary op operand, _, h, fits => by
    obtain ⟨a, ha, h⟩ := generated_bind.1 h
    cases h
    refine ((Expr.code_pushes ha fits).unary op.reduces).congr_single fun m w m' => ?_
    simp only [Expr.Yields]
    constructor
    · rintro ⟨x, _, hx, _, same, hw, rfl⟩
      cases same
      exact ⟨x, hx, hw⟩
    · rintro ⟨x, hx, hw⟩
      exact ⟨x, m', hx, x, rfl, hw, rfl⟩
  | .call name arguments _, _, h, fits => by
    obtain ⟨a, ha, h⟩ := generated_bind.1 h
    have pushed := argumentsCode_pushes ha fits.2
    simp only [Expr.Yields]
    split at h <;> next receiver =>
      cases h
      simp only [receiver]
      first
        | exact pushes_object.callOn _ pushed yieldAll_length fits.1
        | exact pushed.call _ yieldAll_length fits.1
  | .methodCall (.this position) name arguments _, _, h, fits => by
    obtain ⟨i, hi, h⟩ := generated_bind.1 h
    obtain ⟨receiver, rfl⟩ := Site.receiver_eq_ok.1 hi
    obtain ⟨a, ha, h⟩ := generated_bind.1 h
    cases h
    refine (pushes_object.callOn _ (argumentsCode_pushes ha fits.2.2) yieldAll_length
      fits.2.1).congr_single fun m w m' => ?_
    simp [Expr.Yields, receiver]
  | .methodCall (.reference object position) name arguments _, _, h, fits => by
    simp only [Expr.code] at h
    split at h
    · next v hv =>
      split at h
      · cases h
      · next object =>
        obtain ⟨a, ha, h⟩ := generated_bind.1 h
        cases h
        refine ((pushes_variable v).callOn _ (argumentsCode_pushes ha fits.2.2) yieldAll_length
          fits.2.1).congr_single fun m w m' => ?_
        simp [Expr.Yields, hv, object]
    · next hv =>
      obtain ⟨a, ha, h⟩ := generated_bind.1 h
      cases h
      refine ((argumentsCode_pushes ha fits.2.2).call _ yieldAll_length
        fits.2.1).congr_single fun m w m' => ?_
      simp [Expr.Yields, hv]
  | .index target subscript, _, h, fits => by
    obtain ⟨a, ha, h⟩ := generated_bind.1 h
    obtain ⟨b, hb, h⟩ := generated_bind.1 h
    cases h
    rw [List.append_assoc]
    refine ((Expr.code_pushes ha fits.1).binary (Expr.code_pushes hb fits.2)
      reduces_element).congr_single fun m w m' => ?_
    simp only [Expr.Yields]
    constructor
    · rintro ⟨x, m₁, y, _, hx, hy, _, _, same, rfl, rfl⟩
      cases same
      exact ⟨x, m₁, y, hx, hy, rfl⟩
    · rintro ⟨x, m₁, y, hx, hy, rfl⟩
      exact ⟨x, m₁, y, m', hx, hy, x, y, rfl, rfl, rfl⟩

/-- The instructions of arguments push the words that they yield. -/
theorem argumentsCode_pushes : ∀ {es : List Expr} {code : List Instruction},
    argumentsCode site es = .ok code → allCallsFit es →
    Pushes calls site.className code (yieldAll calls site es)
  | [], _, h, _ => by
    cases h
    exact pushes_nil
  | e :: es, _, h, fits => by
    obtain ⟨a, ha, h⟩ := generated_bind.1 h
    obtain ⟨b, hb, h⟩ := generated_bind.1 h
    cases h
    refine ((Expr.code_pushes ha fits.1).append (argumentsCode_pushes hb fits.2)).congr
      fun m ws m' => ?_
    simp only [yieldAll]
    constructor
    · rintro ⟨_, m₁, as, ⟨x, rfl, hx⟩, hs, rfl⟩
      exact ⟨x, m₁, as, hx, hs, rfl⟩
    · rintro ⟨x, m₁, as, hx, hs, rfl⟩
      exact ⟨[x], m₁, as, ⟨x, rfl, hx⟩, hs, rfl⟩

end

end JackCompiler
