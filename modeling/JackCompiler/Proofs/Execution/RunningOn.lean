import JackCompiler.Compilation
import JackCompiler.Proofs.Execution.StackHeight
import JackCompiler.Proofs.Generation.Jumps
/-!
# Running on behind a routine

Nothing stands behind the body of a routine, so where control may come to the end of the body it
runs on into the code of the next routine. Whether it may is read off the text: behind a return it
may not, behind a statement with two branches it may if it may behind one of them, and every loop
and every statement with one branch may be passed by.

        if (c) { return; } else { return; }      never at the end
        if (c) { return; }                       at the end where c fails
        while (true) { return; }                 at the end as far as the jumps tell
-/

namespace JackCompiler

/-- Control may come from one place of the code to another. -/
def Reaches (code : List Instruction) : Nat → Nat → Prop := Relation.ReflTransGen (Edge code)

/-- Control may come from the first place of the code to the place behind the last. -/
def RunsThrough (code : List Instruction) : Prop := Reaches code 0 code.length

mutual

/-- Whether control may run on behind a statement, if conditions may go either way. -/
def Stmt.runsOn : Stmt → Bool
  | .giveBack .. => false
  | .ifElse _ body alternative => blockRunsOn body || blockRunsOn alternative
  | .declare _ | .assign .. | .assignElement .. | .ifThen .. | .repeatWhile .. | .perform .. => true

/-- Whether control may run on behind a block: it has to pass every statement. -/
def blockRunsOn : List Stmt → Bool
  | [] => true
  | s :: ss => s.runsOn && blockRunsOn ss

end

variable {code a b c : List Instruction} {i j k m p q : Nat}

/-! ### Edges -/

theorem Instruction.falls_of_isPlain {i : Instruction} (h : i.isPlain) : i.fallsThrough := by
  cases i <;> first | rfl | cases h

theorem Instruction.target?_of_isPlain {i : Instruction} (h : i.isPlain) : i.target? = none := by
  cases i <;> first | rfl | cases h

/-- An instruction that does not jump leads to the next one and nowhere else. -/
theorem Edge.eq_next {i : Instruction} (here : code[p]? = some i) (none : i.target? = none)
    (h : Edge code p q) : q = p + 1 := by
  cases h with
  | next => rfl
  | jump here' target =>
    obtain rfl := Option.some.inj (here.symm.trans here')
    cases none.symm.trans target

theorem Edge.le_length (h : Edge code p q) : q ≤ code.length := by
  cases h with
  | next here => exact (List.getElem?_eq_some_iff.1 here).1
  | jump _ _ there => exact Nat.le_of_lt (List.getElem?_eq_some_iff.1 there).1

theorem not_edge_length (h : Edge code code.length q) : False := by
  cases h with
  | next here => simp at here
  | jump here => simp at here

/-- A label that is declared once stands at one place. -/
theorem label_place_unique {name : String} (distinct : (declaredLabels code).Nodup)
    (hp : code[p]? = some (.label name)) (hq : code[q]? = some (.label name)) : p = q := by
  induction code generalizing p q with
  | nil => simp at hp
  | cons i code ih =>
    have later : (declaredLabels code).Nodup :=
      distinct.sublist ((List.sublist_cons_self i code).filterMap _)
    have again {k : Nat} (hk : code[k]? = some (.label name)) : i ≠ .label name := by
      rintro rfl
      have member := mem_declaredLabels.2 (List.mem_of_getElem? hk)
      exact (List.nodup_cons.1 distinct).1 member
    cases p with
    | zero =>
      cases q with
      | zero => rfl
      | succ q => exact absurd (by simpa using hp) (again (by simpa using hq))
    | succ p =>
      cases q with
      | zero => exact absurd (by simpa using hq) (again (by simpa using hp))
      | succ q => exact congrArg (· + 1) (ih later (by simpa using hp) (by simpa using hq))

/-! ### Pieces of code -/

theorem Placed.getElem? {i : Instruction} (h : Placed code k b) (here : b[j]? = some i) :
    code[k + j]? = some i := by
  induction b generalizing k j with
  | nil => simp at here
  | cons i' b ih =>
    cases j with
    | zero =>
      obtain rfl : i' = i := by simpa using here
      exact h.1
    | succ j =>
      have later := ih h.2 (by simpa using here)
      rwa [show k + 1 + j = k + (j + 1) by omega] at later

/-- Inside a piece control goes where it goes in the piece alone. -/
theorem Edge.of_placed (h : Placed code k b) (edge : Edge b i j) : Edge code (k + i) (k + j) := by
  cases edge with
  | next here falls => exact .next (h.getElem? here) falls
  | jump here target there => exact .jump (h.getElem? here) target (h.getElem? there)

/-- Jumps of a closed piece stay inside it. -/
theorem Edge.inside (h : Placed code k b) (closed : ClosedCode b)
    (distinct : (declaredLabels code).Nodup) (lt : i < b.length) (edge : Edge code (k + i) p) :
    ∃ j, p = k + j ∧ Edge b i j := by
  have here : b[i]? = some b[i] := List.getElem?_eq_getElem lt
  cases edge with
  | next here' falls =>
    obtain rfl := Option.some.inj ((h.getElem? here).symm.trans here')
    exact ⟨i + 1, by omega, .next here falls⟩
  | @jump _ i' name here' target there =>
    obtain rfl := Option.some.inj ((h.getElem? here).symm.trans here')
    have jumps : name ∈ jumpTargets b := by
      refine List.mem_filterMap.2 ⟨b[i], List.getElem_mem lt, ?_⟩
      cases same : b[i] <;> rw [same] at target <;> cases target <;> rfl
    obtain ⟨j, there'⟩ := List.mem_iff_getElem?.1 (mem_declaredLabels.1 (closed jumps))
    obtain rfl := label_place_unique distinct there (h.getElem? there')
    exact ⟨j, rfl, .jump here target there'⟩

namespace Reaches

theorem of_placed (h : Placed code k b) (reaches : Reaches b i j) :
    Reaches code (k + i) (k + j) := by
  induction reaches with
  | refl => exact .refl
  | tail _ edge ih => exact ih.tail (edge.of_placed h)

theorem le_length (h : Reaches code p q) (le : p ≤ code.length) : q ≤ code.length := by
  cases h with
  | refl => exact le
  | tail _ edge => exact edge.le_length

/-- What holds at the start and passes along every edge holds wherever control may come. -/
theorem invariant {I : Nat → Prop} (h : Reaches code p q) (start : I p)
    (step : ∀ {p q}, I p → Edge code p q → I q) : I q := by
  induction h with
  | refl => exact start
  | tail _ edge ih => exact step ih edge

end Reaches

/-- Where control runs through a piece, it comes from its first place to the one behind it. -/
theorem RunsThrough.reaches (through : RunsThrough b) (h : Placed code k b) :
    Reaches code k (k + b.length) := through.of_placed h

/-- Control runs through code without jumps. -/
theorem runsThrough_of_plain (h : PlainCode a) : RunsThrough a := by
  have upTo : ∀ n ≤ a.length, Reaches a 0 n := by
    intro n
    induction n with
    | zero => intro; exact .refl
    | succ n ih =>
      intro le
      have here : a[n]? = some a[n] := List.getElem?_eq_getElem le
      exact (ih (Nat.le_of_succ_le le)).tail
        (.next here (Instruction.falls_of_isPlain (h _ (List.getElem_mem le))))
  exact upTo a.length le_rfl

/-- Control runs through closed pieces one behind the other if it runs through each. -/
theorem runsThrough_append (ha : ClosedCode a) (hb : ClosedCode b)
    (distinct : (declaredLabels (a ++ b)).Nodup) :
    RunsThrough (a ++ b) ↔ RunsThrough a ∧ RunsThrough b := by
  obtain ⟨front, back⟩ := placed_append.1 (placed_suffix [] (a ++ b))
  simp only [List.nil_append, List.length_nil, Nat.zero_add] at front back
  constructor
  · intro h
    -- as far as control may come, it does so inside the first piece, or through it into the second
    have upTo := h.invariant
      (I := fun p => Reaches a 0 p ∨ RunsThrough a ∧ ∃ i, p = a.length + i ∧ Reaches b 0 i)
      (.inl .refl) ?_
    · rcases upTo with short | ⟨through, i, same, reaches⟩
      · have bound := short.le_length (Nat.zero_le _)
        rw [List.length_append] at short bound
        obtain rfl := List.length_eq_zero_iff.1 (by omega : b.length = 0)
        exact ⟨short, .refl⟩
      · rw [List.length_append] at same
        obtain rfl : b.length = i := by omega
        exact ⟨through, reaches⟩
    · rintro p q (reaches | ⟨through, i, rfl, reaches⟩) edge
      · rcases Nat.lt_or_ge p a.length with lt | ge
        · have edge' : Edge (a ++ b) (0 + p) q := by rwa [Nat.zero_add]
          obtain ⟨j, rfl, inner⟩ := edge'.inside front ha distinct lt
          exact .inl (by rw [Nat.zero_add]; exact reaches.tail inner)
        · obtain rfl := Nat.le_antisymm (reaches.le_length (Nat.zero_le _)) ge
          rcases Nat.eq_zero_or_pos b.length with none | some
          · have last : a.length = (a ++ b).length := by rw [List.length_append, none]; rfl
            rw [last] at edge
            exact (not_edge_length edge).elim
          · have edge' : Edge (a ++ b) (a.length + 0) q := edge
            obtain ⟨j, rfl, inner⟩ := edge'.inside back hb distinct some
            exact .inr ⟨reaches, j, rfl, .single inner⟩
      · rcases Nat.lt_or_ge i b.length with lt | ge
        · obtain ⟨j, rfl, inner⟩ := edge.inside back hb distinct lt
          exact .inr ⟨through, j, rfl, reaches.tail inner⟩
        · have bound := reaches.le_length (Nat.zero_le _)
          have last : a.length + i = (a ++ b).length := by rw [List.length_append]; omega
          rw [last] at edge
          exact (not_edge_length edge).elim
  · rintro ⟨first, second⟩
    have first := first.reaches front
    have second := second.reaches back
    rw [Nat.zero_add] at first
    rw [RunsThrough, List.length_append]
    exact first.trans second

/-! ### Statements -/

/-- A test may go either way: to the instruction behind it, and to its label. -/
theorem reaches_test {name : String} (h : Placed code k (a ++ unlessGoto name))
    (plain : PlainCode a) :
    Reaches code k (k + a.length + 2) ∧
      ∀ {p}, code[p]? = some (.label name) → Reaches code k p := by
  obtain ⟨condition, negated, jump, -⟩ := placed_append.1 h
  have tested : Reaches code k (k + a.length + 1) :=
    ((runsThrough_of_plain plain).reaches condition).tail (.next negated rfl)
  exact ⟨tested.tail (.next jump rfl), fun there => tested.tail (.jump jump rfl there)⟩

/-- Behind a return there is no way on. -/
theorem not_runsThrough_giveBack (plain : PlainCode a) : ¬ RunsThrough (a ++ [.giveBack]) := by
  intro h
  have last : (a ++ [Instruction.giveBack])[a.length]? = some .giveBack := by simp
  have upTo := h.invariant (I := fun p => p ≤ a.length) (Nat.zero_le _) ?_
  · rw [List.length_append, List.length_singleton] at upTo
    omega
  · intro p q le edge
    rcases Nat.lt_or_eq_of_le le with lt | rfl
    · have here : (a ++ [Instruction.giveBack])[p]? = some a[p] := by
        rw [List.getElem?_append_left lt, List.getElem?_eq_getElem lt]
      have next := edge.eq_next here (Instruction.target?_of_isPlain (plain _ (List.getElem_mem lt)))
      omega
    · cases edge with
      | next here falls =>
        obtain rfl := Option.some.inj (here.symm.trans last)
        cases falls
      | jump here target =>
        obtain rfl := Option.some.inj (here.symm.trans last)
        cases target

/-- A body that may be passed over is passed by. -/
theorem runsThrough_ifThen {done : String} (plain : PlainCode a) :
    RunsThrough (a ++ unlessGoto done ++ b ++ [.label done]) := by
  have all := placed_suffix [] (a ++ unlessGoto done ++ b ++ [.label done])
  obtain ⟨front, label, -⟩ := placed_append.1 all
  have away := (reaches_test (placed_append.1 front).1 plain).2 label
  have behind := away.tail (.next label rfl)
  simpa [RunsThrough, Reaches, Nat.add_assoc] using behind

/-- A loop whose condition may fail at once is passed by. -/
theorem runsThrough_while {start stop : String} (plain : PlainCode a) :
    RunsThrough (.label start :: a ++ unlessGoto stop ++ b ++ [.goto start, .label stop]) := by
  have all := placed_suffix [] (.label start :: a ++ unlessGoto stop ++ b ++
    [.goto start, .label stop])
  obtain ⟨front, -, label, -⟩ := placed_append.1 all
  have entered := (placed_append.1 front).1
  have away := (reaches_test entered.2 plain).2 label
  have behind := (away.head (.next entered.1 rfl)).tail (.next label rfl)
  simpa [RunsThrough, Reaches, Nat.add_assoc] using behind

/-- Where control may be in a choice, as long as no branch has been passed. -/
inductive Choosing (a b c : List Instruction) : Nat → Prop
  | testing {p : Nat} : p ≤ a.length + 1 → Choosing a b c p
  | first {i : Nat} : Reaches b 0 i → Choosing a b c (a.length + 2 + i)
  | between : Choosing a b c (a.length + 2 + b.length + 1)
  | second {i : Nat} : Reaches c 0 i → Choosing a b c (a.length + 2 + b.length + 2 + i)
  | passed {p : Nat} : RunsThrough b ∨ RunsThrough c → Choosing a b c p

/-- Control runs through a choice if it runs through one of the branches. -/
theorem runsThrough_ifElse {other done : String} (plain : PlainCode a) (hb : ClosedCode b)
    (hc : ClosedCode c)
    (distinct : (declaredLabels (a ++ unlessGoto other ++ b ++ .goto done :: .label other :: c ++
      [.label done])).Nodup) :
    RunsThrough (a ++ unlessGoto other ++ b ++ .goto done :: .label other :: c ++ [.label done]) ↔
      RunsThrough b ∨ RunsThrough c := by
  generalize whole : a ++ unlessGoto other ++ b ++ .goto done :: .label other :: c ++
    [.label done] = code at distinct ⊢
  have size : code.length = a.length + 2 + b.length + 2 + c.length + 1 := by
    rw [← whole]
    simp [unlessGoto]
    omega
  have all : Placed code 0 (a ++ unlessGoto other ++ b ++ .goto done :: .label other :: c ++
      [.label done]) := by
    rw [whole]
    exact placed_suffix [] code
  obtain ⟨front, finish, -⟩ := placed_append.1 all
  obtain ⟨front, passed, label, second⟩ := placed_append.1 front
  obtain ⟨test, first⟩ := placed_append.1 front
  obtain ⟨condition, negated, jump, -⟩ := placed_append.1 test
  simp only [List.length_append, List.length_cons, List.length_nil, unlessGoto, Nat.zero_add]
    at finish passed label second first negated jump
  rw [show a.length + (1 + 1) + b.length + (c.length + 1 + 1) =
    a.length + 2 + b.length + 2 + c.length by omega] at finish
  constructor
  · intro h
    have inside := h.invariant (I := Choosing a b c) (.testing (Nat.zero_le _)) ?_
    · generalize last : code.length = p at inside
      cases inside with
      | testing | between => omega
      | first reaches | second reaches =>
        have := reaches.le_length (Nat.zero_le _)
        omega
      | passed through => exact through
    · rintro p q within edge
      cases within with
      | testing le =>
        rcases Nat.lt_trichotomy p a.length with lt | rfl | gt
        · have here := condition.getElem? (List.getElem?_eq_getElem lt)
          rw [Nat.zero_add] at here
          have flat := Instruction.target?_of_isPlain (plain _ (List.getElem_mem lt))
          obtain rfl := edge.eq_next here flat
          exact .testing (by omega)
        · obtain rfl := edge.eq_next negated rfl
          exact .testing le_rfl
        · obtain rfl : p = a.length + 1 := by omega
          cases edge with
          | next => exact .first .refl
          | jump here target there =>
            obtain rfl := Option.some.inj (jump.symm.trans here)
            cases target
            obtain rfl := label_place_unique distinct label there
            exact .between
      | @first i reaches =>
        rcases Nat.lt_or_ge i b.length with lt | ge
        · obtain ⟨j, rfl, inner⟩ := edge.inside first hb distinct lt
          exact .first (reaches.tail inner)
        · obtain rfl := Nat.le_antisymm (reaches.le_length (Nat.zero_le _)) ge
          exact .passed (.inl reaches)
      | between =>
        obtain rfl := edge.eq_next label rfl
        exact .second .refl
      | @second i reaches =>
        rcases Nat.lt_or_ge i c.length with lt | ge
        · obtain ⟨j, rfl, inner⟩ := edge.inside second hc distinct lt
          exact .second (reaches.tail inner)
        · obtain rfl := Nat.le_antisymm (reaches.le_length (Nat.zero_le _)) ge
          exact .passed (.inr reaches)
      | passed through => exact .passed through
  · obtain ⟨onward, away⟩ := reaches_test test plain
    have behind : Edge code (a.length + 2 + b.length + 2 + c.length) code.length := by
      rw [size]
      exact .next finish rfl
    rintro (through | through)
    · rw [Nat.zero_add] at onward
      have out := (through.reaches first).tail (.jump passed rfl finish)
      exact (onward.trans out).tail behind
    · have entered := (away label).tail (.next label rfl)
      exact (entered.trans (through.reaches second)).tail behind

/-! ### Programs -/

variable {className : String}

mutual

/-- Control runs through the code of a statement if it may run on behind it. -/
theorem Stmt.code_runsThrough : ∀ {s : Stmt} {f f' : Frame} {code : List Instruction},
    s.code className f = .ok (code, f') → (RunsThrough code ↔ s.runsOn)
  | .declare _, _, _, _, h => by
    cases h
    exact iff_of_true .refl rfl
  | .assign name value position, f, _, _, h => by
    obtain ⟨a, ha, h⟩ := generated_bind.1 h
    obtain ⟨v, -, h⟩ := generated_bind.1 h
    cases h
    refine iff_of_true (runsThrough_of_plain ?_) rfl
    exact plainCode_append.2 ⟨Expr.code_plain ha, plainCode_singleton.2 rfl⟩
  | .assignElement name subscript value position, f, _, _, h => by
    obtain ⟨a, ha, h⟩ := generated_bind.1 h
    obtain ⟨v, -, h⟩ := generated_bind.1 h
    obtain ⟨b, hb, h⟩ := generated_bind.1 h
    cases h
    refine iff_of_true (runsThrough_of_plain ?_) rfl
    simp only [plainCode_append, plainCode_singleton]
    exact ⟨⟨⟨Expr.code_plain ha, plainCode_cons.2 ⟨rfl, Expr.code_plain hb⟩⟩,
      selectElement_plain⟩, rfl⟩
  | .ifThen condition body, f, _, _, h => by
    obtain ⟨a, ha, h⟩ := generated_bind.1 h
    obtain ⟨⟨b, f₁⟩, -, h⟩ := generated_bind.1 h
    cases h
    exact iff_of_true (runsThrough_ifThen (Expr.code_plain ha)) rfl
  | .ifElse condition body alternative, f, _, _, h => by
    have distinct := (Stmt.code_labels h).distinct
    obtain ⟨a, ha, h⟩ := generated_bind.1 h
    obtain ⟨⟨b, f₁⟩, hb, h⟩ := generated_bind.1 h
    obtain ⟨⟨c, f₂⟩, hc, h⟩ := generated_bind.1 h
    cases h
    rw [runsThrough_ifElse (Expr.code_plain ha) (blockCode_closed hb) (blockCode_closed hc) distinct,
      blockCode_runsThrough hb, blockCode_runsThrough hc, Stmt.runsOn, Bool.or_eq_true]
  | .repeatWhile condition body, f, _, _, h => by
    obtain ⟨a, ha, h⟩ := generated_bind.1 h
    obtain ⟨⟨b, f₁⟩, -, h⟩ := generated_bind.1 h
    cases h
    exact iff_of_true (runsThrough_while (Expr.code_plain ha)) rfl
  | .perform call position, f, _, _, h => by
    obtain ⟨a, ha, h⟩ := generated_bind.1 h
    cases h
    refine iff_of_true (runsThrough_of_plain ?_) rfl
    exact plainCode_append.2 ⟨Expr.code_plain ha, plainCode_singleton.2 rfl⟩
  | .giveBack none position, f, _, _, h => by
    cases h
    exact iff_of_false (not_runsThrough_giveBack (plainCode_singleton.2 rfl)) Bool.false_ne_true
  | .giveBack (some value) position, f, _, _, h => by
    obtain ⟨a, ha, h⟩ := generated_bind.1 h
    cases h
    exact iff_of_false (not_runsThrough_giveBack (Expr.code_plain ha)) Bool.false_ne_true

/-- Control runs through the code of a block if it may run on behind it. -/
theorem blockCode_runsThrough : ∀ {ss : List Stmt} {f f' : Frame} {code : List Instruction},
    blockCode className ss f = .ok (code, f') → (RunsThrough code ↔ blockRunsOn ss)
  | [], f, _, _, h => by
    cases h
    exact iff_of_true .refl rfl
  | s :: ss, f, _, _, h => by
    have distinct := (blockCode_labels h).distinct
    obtain ⟨⟨a, f₁⟩, ha, h⟩ := generated_bind.1 h
    obtain ⟨⟨b, f₂⟩, hb, h⟩ := generated_bind.1 h
    cases h
    rw [runsThrough_append (Stmt.code_closed ha) (blockCode_closed hb) distinct,
      Stmt.code_runsThrough ha, blockCode_runsThrough hb, blockRunsOn, Bool.and_eq_true]

end

theorem Routine.code_runsThrough {r : Routine} {table : Table} {code : List Instruction}
    (h : r.code className table = .ok code) : RunsThrough code ↔ blockRunsOn r.body := by
  obtain ⟨distinct, -⟩ := Routine.code_jumps h
  obtain ⟨body, f, hb, rfl⟩ := Routine.code_eq_ok h
  have plain := r.front_plain className table
  rw [runsThrough_append (.of_plain plain) (blockCode_closed hb) distinct,
    blockCode_runsThrough hb, and_iff_right (runsThrough_of_plain plain)]

/-- **Control runs through the end of a routine if and only if it may run on behind its body**, in
every program that compiles. -/
theorem compile_runsOn {source : String} {chunk : Chunk} (h : compile source = .ok chunk) :
    ∃ tree, ClassTree.ofSource source = .ok tree ∧
      List.Forall₂ (fun r code => RunsThrough code ↔ blockRunsOn r.body) tree.routines
        chunk.routines := by
  obtain ⟨tree, ofSource, h⟩ := generated_bind.1 h
  exact ⟨tree, ofSource, (ClassTree.chunk_routines h).imp fun _ _ => Routine.code_runsThrough⟩

/-- A choice of two returns, and a loop without one. -/
def diceSource : String :=
  "class Dice \x7b function int roll(int n) \x7b if (n > 3) \x7b return n; \x7d else " ++
  "\x7b return 6; \x7d \x7d function void idle() \x7b while (true) \x7b \x7d \x7d \x7d"

/-- The routine with the choice. -/
def diceRoll : List Instruction := [
  .function "Dice.roll" 0, .push .arguments 0, .push .constant 3, .operate .gt, .operate .not,
  .ifGoto "IF_ELSE_0", .push .arguments 0, .giveBack, .goto "IF_DONE_0", .label "IF_ELSE_0",
  .push .constant 6, .giveBack, .label "IF_DONE_0"]

/-- The routine with the loop. -/
def diceIdle : List Instruction := [
  .function "Dice.idle" 0, .label "WHILE_START_0", .push .constant 0, .operate .not, .operate .not,
  .ifGoto "WHILE_END_0", .goto "WHILE_START_0", .label "WHILE_END_0"]

/-- Behind the choice control does not come, behind the loop it does. -/
theorem dice_runsOn : compile diceSource = .ok ⟨diceRoll ++ diceIdle⟩ ∧
    ¬ RunsThrough diceRoll ∧ RunsThrough diceIdle := by
  have h : compile diceSource = .ok ⟨diceRoll ++ diceIdle⟩ := by decide +kernel
  obtain ⟨tree, ofSource, all⟩ := compile_runsOn h
  have routines : (Chunk.mk (diceRoll ++ diceIdle)).routines = [diceRoll, diceIdle] := by
    decide +kernel
  have bodies : (ClassTree.ofSource diceSource).map
      (·.routines.map fun r => blockRunsOn r.body) = .ok [false, true] := by decide +kernel
  rw [routines] at all
  obtain ⟨roll, others, choice, all, first⟩ := List.forall₂_cons_right_iff.1 all
  obtain ⟨idle, others, loop, none, rfl⟩ := List.forall₂_cons_right_iff.1 all
  cases none
  rw [ofSource, Except.map, first] at bodies
  obtain ⟨returns, onward⟩ : blockRunsOn roll.body = false ∧ blockRunsOn idle.body = true := by
    simpa using bodies
  exact ⟨h, by simp [choice, returns], loop.2 onward⟩

/-- A body without a return is accepted, and control runs on into the code of the next routine. -/
theorem empty_body_runs_on : ∃ chunk code,
    compile "class A \x7b function void f() \x7b \x7d function void g() \x7b return; \x7d \x7d" =
      .ok chunk ∧ code ∈ chunk.routines ∧ RunsThrough code := by
  refine ⟨⟨[.function "A.f" 0, .function "A.g" 0, .push .constant 0, .giveBack]⟩,
    [.function "A.f" 0], by decide +kernel, by decide +kernel, ?_⟩
  exact .single (.next rfl rfl)

end JackCompiler
