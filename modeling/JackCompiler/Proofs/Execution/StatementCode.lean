import JackCompiler.Proofs.Execution.ControlFlow
/-!
# The instructions of a statement

The instructions of a statement leave the stack as it was and do to the memory what the statement
means, or come to a return with the word given back on top. Where a value is stored, code *absorbs*
the words that other code has pushed. The rest is control flow, as the labels of a program stand
where they are declared.
-/

namespace JackCompiler

variable {calls : Calls} {className : String} {program : List Instruction} {pc : Nat}

/-! ### Storing -/

/-- The code leaves the stack as it was, and changes the memory as the meaning says. -/
structure Changes (calls : Calls) (className : String) (code : List Instruction)
    (meaning : Memory → Memory → Prop) : Prop where
  sound : ∀ {s t : Machine}, Effects calls className code s t →
    t.stack = s.stack ∧ meaning s.memory t.memory
  complete : ∀ {s : Machine} {m : Memory}, meaning s.memory m →
    ∃ t, Effects calls className code s t ∧ t.stack = s.stack ∧ t.memory = m

theorem Changes.congr {code : List Instruction} {a b : Memory → Memory → Prop}
    (h : Changes calls className code a) (iff : ∀ m m', a m m' ↔ b m m') :
    Changes calls className code b where
  sound effects := by
    obtain ⟨stack, meaning⟩ := h.sound effects
    exact ⟨stack, (iff ..).1 meaning⟩
  complete meaning := h.complete ((iff ..).2 meaning)

/-- Changes come one after the other. -/
theorem Changes.append {a b : List Instruction} {first second : Memory → Memory → Prop}
    (ha : Changes calls className a first) (hb : Changes calls className b second) :
    Changes calls className (a ++ b) fun m m' => ∃ m₁, first m m₁ ∧ second m₁ m' where
  sound effects := by
    obtain ⟨m, effects, effects'⟩ := effects_append.1 effects
    obtain ⟨stack, h⟩ := ha.sound effects
    obtain ⟨stack', h'⟩ := hb.sound effects'
    exact ⟨stack'.trans stack, _, h, h'⟩
  complete := by
    rintro s m ⟨m₁, h, h'⟩
    obtain ⟨t, effects, stack, rfl⟩ := ha.complete h
    obtain ⟨u, effects', stack', memory⟩ := hb.complete h'
    exact ⟨u, effects_append.2 ⟨t, effects, effects'⟩, stack'.trans stack, memory⟩

/-- The code takes a number of words off the stack, and changes the memory as the meaning says. -/
structure Absorbs (calls : Calls) (className : String) (arity : Nat) (code : List Instruction)
    (meaning : List Word → Memory → Memory → Prop) : Prop where
  sound : ∀ {s t : Machine} {ws rest : List Word}, ws.length = arity →
    s.stack = ws.reverse ++ rest → Effects calls className code s t →
    t.stack = rest ∧ meaning ws s.memory t.memory
  complete : ∀ {s : Machine} {ws rest : List Word} {m : Memory}, ws.length = arity →
    s.stack = ws.reverse ++ rest → meaning ws s.memory m →
    ∃ t, Effects calls className code s t ∧ t.stack = rest ∧ t.memory = m

/-- Code that absorbs as many words as were pushed leaves the stack as it was. -/
theorem Pushes.absorb {a b : List Instruction} {arity : Nat}
    {operands : Memory → List Word → Memory → Prop} {store : List Word → Memory → Memory → Prop}
    (ha : Pushes calls className a operands) (hb : Absorbs calls className arity b store)
    (count : ∀ {m ws m'}, operands m ws m' → ws.length = arity) :
    Changes calls className (a ++ b) fun m m' => ∃ ws m₁, operands m ws m₁ ∧ store ws m₁ m' where
  sound effects := by
    obtain ⟨m, effects, effects'⟩ := effects_append.1 effects
    obtain ⟨ws, top, hw⟩ := ha.sound effects
    obtain ⟨stack, h⟩ := hb.sound (count hw) top effects'
    exact ⟨stack, ws, _, hw, h⟩
  complete := by
    rintro s m ⟨ws, m₁, hw, h⟩
    obtain ⟨t, effects, top, rfl⟩ := ha.complete hw
    obtain ⟨u, effects', stack, memory⟩ := hb.complete (count hw) top h
    exact ⟨u, effects_append.2 ⟨t, effects, effects'⟩, stack, memory⟩

/-- A pop absorbs one word, if what it does to the memory is known. -/
theorem absorbs_pop {segment : Segment} {slot : Word} (update : Memory → Word → Memory)
    (h : ∀ (s : Machine) (w : Word), ∃ t, s.write className segment slot w = some t ∧
      t.stack = s.stack ∧ t.memory = update s.memory w) :
    Absorbs calls className 1 [.pop segment slot]
      (fun ws m m' => ∃ w, ws = [w] ∧ m' = update m w) where
  sound := by
    intro s t ws rest length top effects
    obtain ⟨w, rfl⟩ := List.length_eq_one_iff.1 length
    obtain ⟨w', rest', top', write⟩ := effects_singleton.1 effects
    obtain ⟨rfl, rfl⟩ := List.cons.inj (top.symm.trans top')
    obtain ⟨u, write', stack, memory⟩ := h { s with stack := rest } w
    obtain rfl : u = t := Option.some.inj (write'.symm.trans write)
    exact ⟨stack, w, rfl, memory⟩
  complete := by
    rintro s _ rest m - top ⟨w, rfl, rfl⟩
    obtain ⟨t, write, stack, memory⟩ := h { s with stack := rest } w
    exact ⟨t, effects_singleton.2 ⟨w, rest, top, write⟩, stack, memory⟩

/-- One word pushed and absorbed. -/
theorem Pushes.store {a b : List Instruction} {value : Memory → Word → Memory → Prop}
    {update : Memory → Word → Memory} (ha : Pushes calls className a (single value))
    (hb : Absorbs calls className 1 b (fun ws m m' => ∃ w, ws = [w] ∧ m' = update m w)) :
    Changes calls className (a ++ b) fun m m' => ∃ w m₁, value m w m₁ ∧ m' = update m₁ w := by
  refine (ha.absorb hb single_length).congr fun m m' => ?_
  constructor
  · rintro ⟨_, m₁, ⟨w, rfl, hw⟩, _, same, rfl⟩
    cases same
    exact ⟨w, m₁, hw, rfl⟩
  · rintro ⟨w, m₁, hw, rfl⟩
    exact ⟨[w], m₁, ⟨w, rfl, hw⟩, w, rfl, rfl⟩

theorem absorbs_variable (v : Variable) :
    Absorbs calls className 1 [v.pop]
      (fun ws m m' => ∃ w, ws = [w] ∧ m' = m.set className v w) :=
  absorbs_pop (fun m w => m.set className v w) fun s w => by
    cases hv : v.storage <;> exact ⟨_, rfl, rfl, by simp [Memory.set, hv]⟩

/-- What is popped into a scratch cell is gone. -/
theorem absorbs_discard :
    Absorbs calls className 1 [.pop .temp 0] (fun ws m m' => ∃ w, ws = [w] ∧ m' = m) :=
  absorbs_pop (fun m _ => m) fun _ _ => ⟨_, rfl, rfl, rfl⟩

/-- A value, an array and a subscript are absorbed into the element. -/
theorem absorbs_element :
    Absorbs calls className 3 (selectElement ++ [.pop .that 0])
      (fun ws m m' => ∃ w a i, ws = [w, a, i] ∧ m' = m.setHeap (a + i) w) where
  sound := by
    intro s t ws rest length top effects
    obtain ⟨w, a, i, rfl⟩ := List.length_eq_three.1 length
    obtain ⟨_, ⟨stack, apply, rfl⟩, _, ⟨b, rest', top', write⟩, _,
      ⟨w', rest'', top'', write'⟩, rfl⟩ := effects
    obtain rfl : (a + i) :: w :: rest = stack := by
      rw [top] at apply; exact Option.some.inj apply
    obtain ⟨rfl, rfl⟩ := List.cons.inj top'
    obtain rfl := Option.some.inj write
    obtain ⟨rfl, rfl⟩ := List.cons.inj top''
    obtain rfl := Option.some.inj write'
    exact ⟨rfl, w, a, i, rfl, by simp⟩
  complete := by
    rintro s _ rest m - top ⟨w, a, i, rfl, rfl⟩
    refine ⟨⟨rest, s.memory.setHeap (a + i) w, a + i, s.scratch⟩, ?_, rfl, rfl⟩
    refine ⟨{ s with stack := (a + i) :: w :: rest }, ⟨_, by rw [top]; rfl, rfl⟩,
      { s with stack := w :: rest, element := a + i }, ⟨_, _, rfl, rfl⟩, _, ⟨_, _, rfl, ?_⟩, rfl⟩
    simp [Machine.write]

/-! ### Plain code and conditions as control flow -/

/-- Plain code that changes the memory completes normally. -/
theorem Changes.realizes {code : List Instruction} {meaning : Memory → Memory → Prop}
    (h : Changes calls className code meaning) (plain : PlainCode code)
    (placed : Placed program pc code) :
    Realizes calls className program pc (pc + code.length)
      fun m c => ∃ m', meaning m m' ∧ c = .normal m' where
  forward := by
    rintro s _ ⟨m', hm, rfl⟩
    obtain ⟨t, effects, stack, memory⟩ := h.complete hm
    exact ⟨_, t, run_of_effects plain placed effects, stack, memory⟩
  backward := by
    intro n s d run arrived
    obtain ⟨k, t, rfl, effects, run⟩ := effects_of_run plain placed run arrived
    obtain ⟨stack, hm⟩ := h.sound effects
    exact ⟨_, ⟨_, hm, rfl⟩, k, t, by omega, run, stack, rfl⟩

/-- Plain code that pushes a word, and a return, give the word back. -/
theorem Pushes.realizes_giveBack {code : List Instruction} {stop : Nat}
    {value : Memory → Word → Memory → Prop} (h : Pushes calls className code (single value))
    (plain : PlainCode code) (placed : Placed program pc (code ++ [.giveBack])) :
    Realizes calls className program pc stop
      fun m c => ∃ w m₁, value m w m₁ ∧ c = .returned w m₁ where
  forward := by
    rintro s _ ⟨w, m₁, hw, rfl⟩
    obtain ⟨t, effects, top, memory⟩ := h.complete ⟨w, rfl, hw⟩
    obtain ⟨placed, here, -⟩ := placed_append.1 placed
    exact ⟨_, _, run_of_effects plain placed effects, here, top, memory⟩
  backward := by
    intro n s d run arrived
    obtain ⟨placed, here, -⟩ := placed_append.1 placed
    obtain ⟨k, t, rfl, effects, run⟩ := effects_of_run plain placed run arrived
    obtain ⟨_, top, w, rfl, hw⟩ := h.sound effects
    -- there is no step from a return, so the run ends here
    cases run with
    | refl => exact ⟨_, ⟨w, _, hw, rfl⟩, top, rfl⟩
    | step step _ =>
      obtain ⟨i, hi, step⟩ := step
      obtain rfl : .giveBack = i := Option.some.inj (here.symm.trans hi)
      exact step.elim

/-- A word is all ones exactly if its complement is zero. -/
theorem complement_eq_zero (w : Word) : ~~~w = 0 ↔ w = truth true := by
  constructor
  · intro h
    calc w = ~~~(~~~w) := by simp
      _ = ~~~0 := by rw [h]
      _ = truth true := by decide
  · rintro rfl
    decide

/-- Plain code that pushes a condition, and a jump unless it holds. -/
theorem Pushes.tests {code : List Instruction} {condition : Memory → Word → Memory → Prop}
    {label : String} {away : Nat} (h : Pushes calls className code (single condition))
    (plain : PlainCode code) (placed : Placed program pc (code ++ unlessGoto label))
    (place : labelPlace program label = away) :
    Tests calls className program pc (pc + (code ++ unlessGoto label).length) away condition := by
  have negated := h.unary UnaryOp.not.reduces
  have plain' : PlainCode (code ++ [UnaryOp.not.instruction]) :=
    plainCode_append.2 ⟨plain, plainCode_singleton.2 rfl⟩
  have split : code ++ unlessGoto label = code ++ [UnaryOp.not.instruction] ++ [.ifGoto label] := by
    simp [unlessGoto, UnaryOp.instruction]
  obtain ⟨placed, here, -⟩ := placed_append.1 (split ▸ placed)
  have behind : pc + (code ++ [UnaryOp.not.instruction]).length + 1 =
      pc + (code ++ unlessGoto label).length := by
    simp [split, Nat.add_assoc]
  -- the jump sees the complement of the condition
  have jump {t : Machine} {w : Word} {rest : List Word} (top : t.stack = ~~~w :: rest)
      (c : Config) :
      Step calls className program (pc + (code ++ [UnaryOp.not.instruction]).length, t) c ↔
        c = (if w = truth true then
          pc + (code ++ unlessGoto label).length else away, { t with stack := rest }) := by
    simp only [step_ifGoto here top, behind, place, complement_eq_zero]
  constructor
  · intro s w m hw
    obtain ⟨t, effects, top, memory⟩ := negated.complete ⟨_, rfl, w, m, hw, w, rfl, rfl, rfl⟩
    have run := run_of_effects plain' placed effects
    exact ⟨_, _, run.trans (.single ((jump top _).2 rfl)), rfl, memory⟩
  · intro n s d run arrived
    obtain ⟨k, t, rfl, effects, run⟩ := effects_of_run plain' placed run arrived
    obtain ⟨_, top, _, rfl, w, m, hw, _, same, rfl, rfl⟩ := negated.sound effects
    cases same
    obtain ⟨j, c, rfl, step, run⟩ := run.head arrived here (by simp)
    obtain rfl := (jump top c).1 step
    exact ⟨w, j, { t with stack := s.stack }, hw, by omega, run, rfl⟩

/-! ### Labels -/

/-- A jump to a label that is declared once leads to where it is declared. -/
theorem labelPlace_eq {name : String} (distinct : (declaredLabels program).Nodup)
    (here : program[pc]? = some (.label name)) : labelPlace program name = pc := by
  induction program generalizing pc with
  | nil => simp at here
  | cons i rest ih =>
    rw [labelPlace, List.findIdx_cons]
    cases pc with
    | zero =>
      obtain rfl : i = .label name := by simpa using here
      simp
    | succ pc =>
      have here : rest[pc]? = some (.label name) := by simpa using here
      have inside : name ∈ declaredLabels rest :=
        List.mem_filterMap.2 ⟨_, List.mem_of_getElem? here, rfl⟩
      have other : i ≠ .label name := by
        rintro rfl
        exact (List.nodup_cons.1 distinct).1 inside
      have distinct : (declaredLabels rest).Nodup :=
        distinct.sublist (List.Sublist.filterMap _ (List.sublist_cons_self i rest))
      have := ih distinct here
      simp only [labelPlace] at this
      simp [other, this]

/-! ### Statements -/

mutual

/-- The scope behind the instructions of a statement is the scope behind the statement. -/
theorem Stmt.code_scope : ∀ {s : Stmt} {f f' : Frame} {code : List Instruction},
    s.code className f = .ok (code, f') → f'.scope = s.scopeBehind f.scope
  | .declare d, _, _, _, h => by
    cases h
    rfl
  | .assign .., _, _, _, h => by
    obtain ⟨_, _, h⟩ := generated_bind.1 h
    obtain ⟨_, _, h⟩ := generated_bind.1 h
    cases h
    rfl
  | .assignElement .., _, _, _, h => by
    obtain ⟨_, _, h⟩ := generated_bind.1 h
    obtain ⟨_, _, h⟩ := generated_bind.1 h
    obtain ⟨_, _, h⟩ := generated_bind.1 h
    cases h
    rfl
  | .ifThen condition body, _, _, _, h => by
    obtain ⟨_, _, h⟩ := generated_bind.1 h
    obtain ⟨⟨b, f₁⟩, hb, h⟩ := generated_bind.1 h
    cases h
    rw [blockCode_scope hb]
    rfl
  | .ifElse condition body alternative, _, _, _, h => by
    obtain ⟨_, _, h⟩ := generated_bind.1 h
    obtain ⟨⟨b, f₁⟩, hb, h⟩ := generated_bind.1 h
    obtain ⟨⟨c, f₂⟩, hc, h⟩ := generated_bind.1 h
    cases h
    rw [blockCode_scope hc, blockCode_scope hb]
    rfl
  | .repeatWhile condition body, _, _, _, h => by
    obtain ⟨_, _, h⟩ := generated_bind.1 h
    obtain ⟨⟨b, f₁⟩, hb, h⟩ := generated_bind.1 h
    cases h
    rw [blockCode_scope hb]
    rfl
  | .perform .., _, _, _, h => by
    obtain ⟨_, _, h⟩ := generated_bind.1 h
    cases h
    rfl
  | .giveBack none _, _, _, _, h => by
    cases h
    rfl
  | .giveBack (some _) _, _, _, _, h => by
    obtain ⟨_, _, h⟩ := generated_bind.1 h
    cases h
    rfl

/-- The scope behind the instructions of a block is the scope behind the block. -/
theorem blockCode_scope : ∀ {ss : List Stmt} {f f' : Frame} {code : List Instruction},
    blockCode className ss f = .ok (code, f') → f'.scope = blockScope ss f.scope
  | [], _, _, _, h => by
    cases h
    rfl
  | s :: ss, _, _, _, h => by
    obtain ⟨⟨a, f₁⟩, ha, h⟩ := generated_bind.1 h
    obtain ⟨⟨b, f₂⟩, hb, h⟩ := generated_bind.1 h
    cases h
    rw [blockCode_scope hb, Stmt.code_scope ha]
    rfl

end

mutual

/-- The instructions of a statement do what the statement means, wherever they stand in a program
that declares no label twice. -/
theorem Stmt.code_realizes (distinct : (declaredLabels program).Nodup) :
    ∀ {s : Stmt} {f f' : Frame} {code : List Instruction} {pc : Nat},
      s.code className f = .ok (code, f') → s.CallsFit → Placed program pc code →
      Realizes calls className program pc (pc + code.length)
        (s.Completes calls className f.scope)
  | .declare d, f, _, _, pc, h, _, _ => by
    cases h
    exact realizes_nil
  | .assign name value position, f, _, _, pc, h, fits, placed => by
    obtain ⟨a, ha, h⟩ := generated_bind.1 h
    obtain ⟨v, hv, h⟩ := generated_bind.1 h
    cases h
    have resolved := Site.lookup_eq_ok.1 hv
    have pushed : Pushes calls className a (single (value.Yields calls ⟨className, f.scope⟩)) :=
      Expr.code_pushes ha fits
    have stored := pushed.store (absorbs_variable v)
    have plain : PlainCode (a ++ [v.pop]) :=
      plainCode_append.2 ⟨Expr.code_plain ha, plainCode_singleton.2 rfl⟩
    refine (stored.realizes plain placed).congr fun m c => ?_
    simp only [Stmt.Completes]
    constructor
    · rintro ⟨_, ⟨w, m₁, hw, rfl⟩, rfl⟩
      exact ⟨w, m₁, v, hw, resolved, rfl⟩
    · rintro ⟨w, m₁, _, hw, resolved', rfl⟩
      obtain rfl := Option.some.inj (resolved.symm.trans resolved')
      exact ⟨_, ⟨w, m₁, hw, rfl⟩, rfl⟩
  | .assignElement name subscript value position, f, _, _, pc, h, fits, placed => by
    obtain ⟨a, ha, h⟩ := generated_bind.1 h
    obtain ⟨v, hv, h⟩ := generated_bind.1 h
    obtain ⟨b, hb, h⟩ := generated_bind.1 h
    cases h
    have resolved := Site.lookup_eq_ok.1 hv
    have first : Pushes calls className a (single (value.Yields calls ⟨className, f.scope⟩)) :=
      Expr.code_pushes ha fits.1
    have last : Pushes calls className b (single (subscript.Yields calls ⟨className, f.scope⟩)) :=
      Expr.code_pushes hb fits.2
    have stored := ((first.append (pushes_variable v)).append last).absorb absorbs_element (by
      rintro m _ m' ⟨_, _, _, ⟨_, _, _, hw, hv, rfl⟩, hi, rfl⟩
      rw [List.length_append, List.length_append, single_length hw, single_length hv,
        single_length hi])
    have plain : PlainCode (a ++ [v.push] ++ b ++ (selectElement ++ [.pop .that 0])) := by
      simp only [plainCode_append, plainCode_singleton]
      exact ⟨⟨⟨Expr.code_plain ha, rfl⟩, Expr.code_plain hb⟩, selectElement_plain, rfl⟩
    have same : a ++ v.push :: b ++ selectElement ++ [.pop .that 0] =
      a ++ [v.push] ++ b ++ (selectElement ++ [.pop .that 0]) := by simp
    rw [same] at placed ⊢
    refine (stored.realizes plain placed).congr fun m c => ?_
    simp only [Stmt.Completes]
    constructor
    · rintro ⟨_, ⟨_, m₂, ⟨_, _, _, ⟨_, m₁, _, ⟨w, rfl, hw⟩, ⟨_, rfl, rfl, rfl⟩, rfl⟩,
        ⟨i, rfl, hi⟩, rfl⟩, _, _, _, same, rfl⟩, rfl⟩
      cases same
      exact ⟨w, _, v, i, m₂, hw, resolved, hi, rfl⟩
    · rintro ⟨w, m₁, _, i, m₂, hw, resolved', hi, rfl⟩
      obtain rfl := Option.some.inj (resolved.symm.trans resolved')
      exact ⟨_, ⟨_, m₂, ⟨_, m₁, _, ⟨_, m₁, _, ⟨w, rfl, hw⟩, ⟨_, rfl, rfl, rfl⟩, rfl⟩,
        ⟨i, rfl, hi⟩, rfl⟩, w, _, i, rfl, rfl⟩, rfl⟩
  | .ifThen condition body, f, _, _, pc, h, fits, placed => by
    obtain ⟨a, ha, h⟩ := generated_bind.1 h
    obtain ⟨⟨b, f₁⟩, hb, h⟩ := generated_bind.1 h
    cases h
    obtain ⟨placed, here, -⟩ := placed_append.1 placed
    obtain ⟨placed, inner⟩ := placed_append.1 placed
    have pushed : Pushes calls className a
      (single (condition.Yields calls ⟨className, f.scope⟩)) := Expr.code_pushes ha fits.1
    have test := pushed.tests (Expr.code_plain ha) placed (labelPlace_eq distinct here)
    have first := blockCode_realizes distinct hb fits.2 inner
    have done := realizes_label calls className here
    rw [Nat.add_assoc, ← List.length_append] at first
    rw [List.length_append, ← Nat.add_assoc]
    exact test.choice (first.then_skips done) done
  | .ifElse condition body alternative, f, _, _, pc, h, fits, placed => by
    obtain ⟨a, ha, h⟩ := generated_bind.1 h
    obtain ⟨⟨b, f₁⟩, hb, h⟩ := generated_bind.1 h
    obtain ⟨⟨c, f₂⟩, hc, h⟩ := generated_bind.1 h
    cases h
    obtain ⟨placed, last, -⟩ := placed_append.1 placed
    obtain ⟨placed, jump, other, inner'⟩ := placed_append.1 placed
    obtain ⟨placed, inner⟩ := placed_append.1 placed
    have pushed : Pushes calls className a
      (single (condition.Yields calls ⟨className, f.scope⟩)) := Expr.code_pushes ha fits.1
    have test := pushed.tests (Expr.code_plain ha) placed (labelPlace_eq distinct other)
    have first := blockCode_realizes distinct hb fits.2.1 inner
    have second := blockCode_realizes distinct hc fits.2.2 inner'
    rw [blockCode_scope hb] at second
    have skip := realizes_goto calls className jump (labelPlace_eq distinct last)
    have entry := realizes_label calls className other
    have done := realizes_label calls className last
    have behind : pc + (a ++ unlessGoto (elseLabel f.nextLabel) ++ b).length + 1 + 1 + c.length =
        pc + (a ++ unlessGoto (elseLabel f.nextLabel) ++ b ++
          .goto (doneLabel f.nextLabel) :: .label (elseLabel f.nextLabel) :: c).length := by
      simp only [List.length_append, List.length_cons]
      omega
    rw [behind] at second
    rw [Nat.add_assoc, ← List.length_append] at first
    rw [List.length_append, ← Nat.add_assoc]
    exact test.choice ((first.then_skips skip).then_skips done)
      ((entry.skips_then second).then_skips done)
  | .repeatWhile condition body, f, _, _, pc, h, fits, placed => by
    obtain ⟨a, ha, h⟩ := generated_bind.1 h
    obtain ⟨⟨b, f₁⟩, hb, h⟩ := generated_bind.1 h
    cases h
    obtain ⟨placed, back, last, -⟩ := placed_append.1 placed
    obtain ⟨⟨here, placed⟩, inner⟩ := placed_append.1 placed
    have pushed : Pushes calls className a
      (single (condition.Yields calls ⟨className, f.scope⟩)) := Expr.code_pushes ha fits.1
    have test := pushed.tests (Expr.code_plain ha) placed (labelPlace_eq distinct last)
    have onward : pc + 1 + (a ++ unlessGoto (endLabel f.nextLabel)).length =
        pc + (.label (startLabel f.nextLabel) :: a ++ unlessGoto (endLabel f.nextLabel)).length := by
      rw [List.cons_append, List.length_cons]
      omega
    rw [onward] at test
    have round := blockCode_realizes distinct hb fits.2 inner
    rw [Nat.add_assoc, ← List.length_append] at round
    have entry := realizes_label calls className here
    have jump := realizes_goto calls className back (labelPlace_eq distinct here)
    have done := realizes_label calls className last
    rw [List.length_append, ← Nat.add_assoc]
    have loop := test.loop ((round.then_skips jump).then_skips entry)
    exact entry.skips_then (loop.then_skips done)
  | .perform call position, f, _, _, pc, h, fits, placed => by
    obtain ⟨a, ha, h⟩ := generated_bind.1 h
    cases h
    have pushed : Pushes calls className a (single (call.Yields calls ⟨className, f.scope⟩)) :=
      Expr.code_pushes ha fits
    have stored := pushed.store absorbs_discard
    have plain : PlainCode (a ++ [.pop .temp 0]) :=
      plainCode_append.2 ⟨Expr.code_plain ha, plainCode_singleton.2 rfl⟩
    refine (stored.realizes plain placed).congr fun m c => ?_
    simp only [Stmt.Completes]
    constructor
    · rintro ⟨_, ⟨w, m₁, hw, rfl⟩, rfl⟩
      exact ⟨w, _, hw, rfl⟩
    · rintro ⟨w, m₁, hw, rfl⟩
      exact ⟨m₁, ⟨w, m₁, hw, rfl⟩, rfl⟩
  | .giveBack none position, f, _, _, pc, h, _, placed => by
    cases h
    refine ((pushes_constant 0).realizes_giveBack (plainCode_singleton.2 rfl) placed).congr
      fun m c => ?_
    simp [Stmt.Completes]
  | .giveBack (some value) position, f, _, _, pc, h, fits, placed => by
    obtain ⟨a, ha, h⟩ := generated_bind.1 h
    cases h
    have pushed : Pushes calls className a (single (value.Yields calls ⟨className, f.scope⟩)) :=
      Expr.code_pushes ha fits
    exact pushed.realizes_giveBack (Expr.code_plain ha) placed

/-- The instructions of a block do what the block means. -/
theorem blockCode_realizes (distinct : (declaredLabels program).Nodup) :
    ∀ {ss : List Stmt} {f f' : Frame} {code : List Instruction} {pc : Nat},
      blockCode className ss f = .ok (code, f') → blockCallsFit ss → Placed program pc code →
      Realizes calls className program pc (pc + code.length)
        (blockCompletes calls className ss f.scope)
  | [], f, _, _, pc, h, _, _ => by
    cases h
    exact realizes_nil
  | s :: ss, f, _, _, pc, h, fits, placed => by
    obtain ⟨⟨a, f₁⟩, ha, h⟩ := generated_bind.1 h
    obtain ⟨⟨b, f₂⟩, hb, h⟩ := generated_bind.1 h
    cases h
    obtain ⟨placed, placed'⟩ := placed_append.1 placed
    have first := Stmt.code_realizes distinct ha fits.1 placed
    have second := blockCode_realizes distinct hb fits.2 placed'
    rw [Stmt.code_scope ha] at second
    rw [List.length_append, ← Nat.add_assoc]
    exact first.sequel second

end

end JackCompiler
