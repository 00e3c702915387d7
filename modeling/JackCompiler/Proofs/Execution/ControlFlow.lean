import JackCompiler.Proofs.Execution.ExpressionCode
import JackCompiler.Proofs.Generation.Labels
/-!
# Control flow

Code from one place of a program to another *realizes* a meaning if runs and completions agree in
both directions: what completes in the meaning is run by the machine, and a run that comes to a
return has completed the code in the meaning on its way. Each construct of the language has one
lemma, about places and not about trees: doing one thing after another, choosing, going round.

        pc:      start label        ◀──────────────┐
        pc + 1:  condition, not, if-goto  ──▶ away │
        onward:  body                              │
        back:    goto start  ──────────────────────┘
        away:    end label
-/

namespace JackCompiler

variable (calls : Calls) (className : String) (program : List Instruction)

/-- The run goes from a configuration to where the completion leaves it: with the stack as it was to
the place behind, or to a return. -/
def Arrives (start : Config) (stop : Nat) : Completion → Prop
  | .normal m => ∃ n t, Run calls className program n start (stop, t) ∧
      t.stack = start.2.stack ∧ t.memory = m
  | .returned w m => Returns calls className program start w start.2.stack m

/-- A run of `n` steps to a return at `d`, seen from the completion: it still goes on from the place
behind, or that return is the one. -/
def Remains (n : Nat) (stack : List Word) (stop : Nat) (d : Config) : Completion → Prop
  | .normal m => ∃ k t, k ≤ n ∧ Run calls className program k (stop, t) d ∧ t.stack = stack ∧
      t.memory = m
  | .returned w m => d.2.stack = w :: stack ∧ d.2.memory = m

/-- The code from `pc` to `stop` does what the meaning says. -/
structure Realizes (pc stop : Nat) (meaning : Memory → Completion → Prop) : Prop where
  forward : ∀ {s : Machine} {c : Completion}, meaning s.memory c →
    Arrives calls className program (pc, s) stop c
  backward : ∀ {n : Nat} {s : Machine} {d : Config}, Run calls className program n (pc, s) d →
    AtReturn program d → ∃ c, meaning s.memory c ∧ Remains calls className program n s.stack stop d c

/-- The code from `pc` evaluates a condition and goes on at `onward` if it holds, and otherwise at
`away`. -/
structure Tests (pc onward away : Nat) (condition : Memory → Word → Memory → Prop) : Prop where
  forward : ∀ {s : Machine} {w : Word} {m : Memory}, condition s.memory w m →
    ∃ n t, Run calls className program n (pc, s) (if w = truth true then onward else away, t) ∧
      t.stack = s.stack ∧ t.memory = m
  backward : ∀ {n : Nat} {s : Machine} {d : Config}, Run calls className program n (pc, s) d →
    AtReturn program d → ∃ w k t, condition s.memory w t.memory ∧ k < n ∧
      Run calls className program k (if w = truth true then onward else away, t) d ∧
      t.stack = s.stack

/-- Nothing is done. -/
def Skips (m : Memory) (c : Completion) : Prop := c = .normal m

/-- One thing is done after another, unless the first returns. -/
def Sequel (first second : Memory → Completion → Prop) (m : Memory) (c : Completion) : Prop :=
  (∃ w m₁, first m (.returned w m₁) ∧ c = .returned w m₁) ∨
    ∃ m₁, first m (.normal m₁) ∧ second m₁ c

variable {calls className program} {pc stop : Nat}

theorem Realizes.congr {a b : Memory → Completion → Prop}
    (h : Realizes calls className program pc stop a) (iff : ∀ m c, a m c ↔ b m c) :
    Realizes calls className program pc stop b where
  forward hb := h.forward ((iff ..).2 hb)
  backward run arrived := by
    obtain ⟨c, hc, remains⟩ := h.backward run arrived
    exact ⟨c, (iff ..).1 hc, remains⟩

theorem Remains.mono {n k : Nat} {stack : List Word} {d : Config} {c : Completion} (le : n ≤ k)
    (h : Remains calls className program n stack stop d c) :
    Remains calls className program k stack stop d c := by
  cases c with
  | normal m =>
    obtain ⟨j, t, hj, rest⟩ := h
    exact ⟨j, t, hj.trans le, rest⟩
  | returned w m => exact h

/-- What arrives from a later configuration arrives from an earlier one with the same stack. -/
theorem Arrives.of_run {n : Nat} {s t : Machine} {mid : Nat} {c : Completion}
    (run : Run calls className program n (pc, s) (mid, t)) (stack : t.stack = s.stack)
    (h : Arrives calls className program (mid, t) stop c) :
    Arrives calls className program (pc, s) stop c := by
  cases c with
  | normal m =>
    obtain ⟨k, u, run', stack', memory⟩ := h
    exact ⟨n + k, u, run.trans run', stack'.trans stack, memory⟩
  | returned w m =>
    obtain ⟨k, d, run', arrived, top, memory⟩ := h
    exact ⟨n + k, d, run.trans run', arrived, by rw [top, stack], memory⟩

/-! ### Single instructions -/

/-- No code does nothing. -/
theorem realizes_nil : Realizes calls className program pc pc Skips where
  forward := by
    rintro s _ rfl
    exact ⟨0, s, .refl _, rfl, rfl⟩
  backward := by
    intro n s d run _
    exact ⟨.normal s.memory, rfl, n, s, le_rfl, run, rfl, rfl⟩

variable (calls className) in
theorem realizes_label {name : String} (here : program[pc]? = some (.label name)) :
    Realizes calls className program pc (pc + 1) Skips where
  forward := by
    rintro s _ rfl
    exact ⟨1, s, .single ((step_label here).2 rfl), rfl, rfl⟩
  backward := by
    intro n s d run arrived
    obtain ⟨k, c, rfl, step, run⟩ := run.head arrived here (by simp)
    obtain rfl := (step_label here).1 step
    exact ⟨.normal s.memory, rfl, k, s, by omega, run, rfl, rfl⟩

variable (calls className) in
theorem realizes_goto {name : String} (here : program[pc]? = some (.goto name))
    (place : labelPlace program name = stop) :
    Realizes calls className program pc stop Skips where
  forward := by
    rintro s _ rfl
    exact ⟨1, s, .single ((step_goto here).2 (by rw [place])), rfl, rfl⟩
  backward := by
    intro n s d run arrived
    obtain ⟨k, c, rfl, step, run⟩ := run.head arrived here (by simp)
    obtain rfl := (step_goto here).1 step
    rw [place] at run
    exact ⟨.normal s.memory, rfl, k, s, by omega, run, rfl, rfl⟩

/-! ### One thing after another -/

theorem Realizes.sequel {mid : Nat} {first second : Memory → Completion → Prop}
    (ha : Realizes calls className program pc mid first)
    (hb : Realizes calls className program mid stop second) :
    Realizes calls className program pc stop (Sequel first second) where
  forward := by
    rintro s c (⟨w, m₁, h, rfl⟩ | ⟨m₁, h, h'⟩)
    · exact ha.forward h
    · obtain ⟨n, t, run, stack, rfl⟩ := ha.forward h
      exact (hb.forward h').of_run run stack
  backward := by
    intro n s d run arrived
    obtain ⟨c, h, remains⟩ := ha.backward run arrived
    cases c with
    | returned w m => exact ⟨_, .inl ⟨w, m, h, rfl⟩, remains⟩
    | normal m =>
      obtain ⟨k, t, le, run', stack, rfl⟩ := remains
      obtain ⟨c, h', remains⟩ := hb.backward run' arrived
      rw [stack] at remains
      exact ⟨c, .inr ⟨_, h, h'⟩, remains.mono le⟩

theorem sequel_skips (meaning : Memory → Completion → Prop) (m : Memory) (c : Completion) :
    Sequel meaning Skips m c ↔ meaning m c := by
  constructor
  · rintro (⟨w, m₁, h, rfl⟩ | ⟨m₁, h, rfl⟩) <;> exact h
  · intro h
    cases c with
    | normal m₁ => exact .inr ⟨m₁, h, rfl⟩
    | returned w m₁ => exact .inl ⟨w, m₁, h, rfl⟩

theorem skips_sequel (meaning : Memory → Completion → Prop) (m : Memory) (c : Completion) :
    Sequel Skips meaning m c ↔ meaning m c := by
  constructor
  · rintro (⟨w, m₁, h, rfl⟩ | ⟨m₁, h, h'⟩)
    · cases h
    · cases h; exact h'
  · exact fun h => .inr ⟨m, rfl, h⟩

/-- Nothing done behind a piece of code changes nothing. -/
theorem Realizes.then_skips {mid : Nat} {meaning : Memory → Completion → Prop}
    (h : Realizes calls className program pc mid meaning)
    (h' : Realizes calls className program mid stop Skips) :
    Realizes calls className program pc stop meaning :=
  (h.sequel h').congr (sequel_skips meaning)

/-- Nothing done in front of a piece of code changes nothing. -/
theorem Realizes.skips_then {mid : Nat} {meaning : Memory → Completion → Prop}
    (h : Realizes calls className program pc mid Skips)
    (h' : Realizes calls className program mid stop meaning) :
    Realizes calls className program pc stop meaning :=
  (h.sequel h').congr (skips_sequel meaning)

/-! ### Choices -/

/-- A condition decides between two pieces of code. -/
theorem Tests.choice {onward away : Nat} {condition : Memory → Word → Memory → Prop}
    {first second : Memory → Completion → Prop}
    (test : Tests calls className program pc onward away condition)
    (ha : Realizes calls className program onward stop first)
    (hb : Realizes calls className program away stop second) :
    Realizes calls className program pc stop fun m c =>
      ∃ w m₁, condition m w m₁ ∧ if w = truth true then first m₁ c else second m₁ c where
  forward := by
    rintro s c ⟨w, m₁, hw, h⟩
    obtain ⟨n, t, run, stack, rfl⟩ := test.forward hw
    split at h <;> next holds =>
      simp only [holds, if_true, if_false] at run
      first
        | exact (ha.forward h).of_run run stack
        | exact (hb.forward h).of_run run stack
  backward := by
    intro n s d run arrived
    obtain ⟨w, k, t, hw, lt, run', stack⟩ := test.backward run arrived
    by_cases holds : w = truth true
    · rw [if_pos holds] at run'
      obtain ⟨c, h, remains⟩ := ha.backward run' arrived
      rw [stack] at remains
      exact ⟨c, ⟨w, _, hw, by rwa [if_pos holds]⟩, remains.mono lt.le⟩
    · rw [if_neg holds] at run'
      obtain ⟨c, h, remains⟩ := hb.backward run' arrived
      rw [stack] at remains
      exact ⟨c, ⟨w, _, hw, by rwa [if_neg holds]⟩, remains.mono lt.le⟩

/-! ### Loops -/

/-- A condition in front of a body behind which the run goes back to the condition. -/
theorem Tests.loop {onward away : Nat} {condition : Memory → Word → Memory → Prop}
    {body : Memory → Completion → Prop}
    (test : Tests calls className program pc onward away condition)
    (h : Realizes calls className program onward pc body) :
    Realizes calls className program pc away (Loop condition body) where
  forward := by
    intro s c loop
    -- induction on the rounds, for every machine with that memory
    generalize hm : s.memory = m at loop
    induction loop generalizing s with
    | done hw fails =>
      subst hm
      obtain ⟨n, t, run, stack, memory⟩ := test.forward hw
      rw [if_neg fails] at run
      exact ⟨n, t, run, stack, memory⟩
    | leave hw hb =>
      subst hm
      obtain ⟨n, t, run, stack, rfl⟩ := test.forward hw
      rw [if_pos rfl] at run
      exact (h.forward hb).of_run run stack
    | again hw hb _ ih =>
      subst hm
      obtain ⟨n, t, run, stack, rfl⟩ := test.forward hw
      rw [if_pos rfl] at run
      obtain ⟨k, u, run', stack', memory⟩ := h.forward hb
      exact (ih memory).of_run (run.trans run') (stack'.trans stack)
  backward := by
    intro n s d run arrived
    -- every round takes steps, so the run that is left gets shorter
    induction n using Nat.strong_induction_on generalizing s with
    | _ n ih =>
      obtain ⟨w, k, t, hw, lt, run', stack⟩ := test.backward run arrived
      by_cases holds : w = truth true
      · subst holds
        rw [if_pos rfl] at run'
        obtain ⟨c, hb, remains⟩ := h.backward run' arrived
        cases c with
        | returned w m =>
          rw [stack] at remains
          exact ⟨_, .leave hw hb, remains⟩
        | normal m =>
          obtain ⟨j, u, le, run', stack', rfl⟩ := remains
          obtain ⟨c, loop, remains⟩ := ih j (by omega) run'
          rw [stack', stack] at remains
          exact ⟨c, .again hw hb loop, remains.mono (by omega)⟩
      · rw [if_neg holds] at run'
        exact ⟨.normal t.memory, .done hw holds, k, t, lt.le, run', stack, rfl⟩

end JackCompiler
