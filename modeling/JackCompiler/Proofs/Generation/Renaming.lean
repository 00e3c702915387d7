import JackCompiler.Proofs.Generation.Pieces
import JackCompiler.Proofs.Names.Renaming
/-!
# Code has no names of variables

The code of a routine tells a variable by its slot, and an object by its type. So a routine whose
variables are renamed has the same code, as long as every place that is renamed uses a variable of
the routine: a name that stands for nothing in front of a call is the name of a class, and this is
printed.

        method void f(Point p) { do p.move(1); }       push argument 1, push constant 1,
        method void f(Point q) { do q.move(1); }       call Point.move 2
-/

namespace JackCompiler

variable {f : String → String} {className : String} {base base' : Scope}

/-! ### Expressions -/

section

variable {declared : List (String × String)}

/-- Whether there is an object does not depend on locals. -/
theorem Site.receiver_rename (kind : base'.kind = base.kind) (position : Option Position) :
    Site.receiver ⟨className, base'.defineLocals (renameTyped f declared)⟩ position =
      Site.receiver ⟨className, base.defineLocals declared⟩ position := by
  change (if base'.kind.hasReceiver then _ else _) = if base.kind.hasReceiver then _ else _
  rw [kind]

/-- A variable that is mentioned is found under its new name. -/
theorem Site.lookup_rename {use : Use} {name : String} {place position : Option Position}
    {v : Variable} (kept : Mention.Kept f base base' ⟨use, name, place, declared⟩)
    (uses : use ≠ .this)
    (h : Site.lookup ⟨className, base.defineLocals declared⟩ name position = .ok v) :
    Site.lookup ⟨className, base'.defineLocals (renameTyped f declared)⟩ (f name) position =
      .ok (v.rename f) := by
  have resolved : Mention.resolved base ⟨use, name, place, declared⟩ = some v :=
    Site.lookup_eq_ok.1 h
  rw [Site.lookup_eq_ok, (kept uses).1, resolved]
  rfl

mutual

/-- The code of a renamed expression is the same. -/
theorem Expr.code_rename (kind : base'.kind = base.kind) :
    ∀ {e : Expr} {code : List Instruction},
    (∀ m ∈ e.mentions declared, m.Kept f base base') →
    e.code ⟨className, base.defineLocals declared⟩ = .ok code →
    (e.rename f).code ⟨className, base'.defineLocals (renameTyped f declared)⟩ = .ok code
  | .constant .., _, _, h | .null, _, _, h | .boolean _, _, _, h | .string _, _, _, h => h
  | .this position, _, _, h => by
    rw [Expr.rename, Expr.code, Site.receiver_rename kind]
    exact h
  | .reference name position, _, kept, h => by
    obtain ⟨v, hv, h⟩ := generated_bind.1 h
    exact generated_bind.2 ⟨_, Site.lookup_rename (kept _ List.mem_cons_self) nofun hv, h⟩
  | .binary op left right _, _, kept, h => by
    obtain ⟨a, ha, h⟩ := generated_bind.1 h
    obtain ⟨b, hb, h⟩ := generated_bind.1 h
    obtain ⟨keptLeft, keptRight⟩ := List.forall_mem_append.1 kept
    exact generated_bind.2 ⟨a, Expr.code_rename kind keptLeft ha,
      generated_bind.2 ⟨b, Expr.code_rename kind keptRight hb, h⟩⟩
  | .unary op operand, _, kept, h => by
    obtain ⟨a, ha, h⟩ := generated_bind.1 h
    exact generated_bind.2 ⟨a, Expr.code_rename (e := operand) kind kept ha, h⟩
  | .call name arguments _, _, kept, h => by
    obtain ⟨a, ha, h⟩ := generated_bind.1 h
    have object : (base'.defineLocals (renameTyped f declared)).kind =
        (base.defineLocals declared).kind := kind
    have mentioned : ∀ m ∈ allMentions declared arguments, m.Kept f base base' := kept
    rw [Expr.rename, Expr.code, argumentsCode_rename kind mentioned ha, length_renameAll, object]
    exact h
  | .index target subscript, _, kept, h => by
    obtain ⟨a, ha, h⟩ := generated_bind.1 h
    obtain ⟨b, hb, h⟩ := generated_bind.1 h
    obtain ⟨keptTarget, keptSubscript⟩ := List.forall_mem_append.1 kept
    exact generated_bind.2 ⟨a, Expr.code_rename kind keptTarget ha,
      generated_bind.2 ⟨b, Expr.code_rename kind keptSubscript hb, h⟩⟩
  | .methodCall (.this place) name arguments _, _, kept, h => by
    obtain ⟨keptThis, keptArguments⟩ := List.forall_mem_cons.1 kept
    obtain ⟨object, ho, h⟩ := generated_bind.1 h
    obtain ⟨a, ha, h⟩ := generated_bind.1 h
    rw [Expr.rename, Expr.rename, Expr.code, Site.receiver_rename kind, ho,
      argumentsCode_rename kind keptArguments ha, length_renameAll]
    exact h
  | .methodCall (.reference object place) name arguments _, _, kept, h => by
    obtain ⟨keptObject, keptArguments⟩ := List.forall_mem_cons.1 kept
    obtain ⟨found, stays⟩ := keptObject nofun
    simp only [Mention.resolved] at found stays
    rw [Expr.rename, Expr.rename, Expr.code, length_renameAll]
    simp only [found]
    rw [Expr.code] at h
    split at h
    · next v hv =>
      rw [hv]
      split at h
      · cases h
      · next primitive =>
        obtain ⟨a, ha, h⟩ := generated_bind.1 h
        rw [Option.map_some]
        exact (if_neg primitive).trans <|
          generated_bind.2 ⟨a, argumentsCode_rename kind keptArguments ha, h⟩
    · next hv =>
      -- the name of a class stays
      obtain ⟨a, ha, h⟩ := generated_bind.1 h
      rw [hv, argumentsCode_rename kind keptArguments ha, stays hv]
      exact h
  | .methodCall (.constant ..) _ _ _, _, _, h | .methodCall (.boolean _) _ _ _, _, _, h
  | .methodCall (.string _) _ _ _, _, _, h | .methodCall .null _ _ _, _, _, h
  | .methodCall (.binary ..) _ _ _, _, _, h | .methodCall (.unary ..) _ _ _, _, _, h
  | .methodCall (.call ..) _ _ _, _, _, h | .methodCall (.methodCall ..) _ _ _, _, _, h
  | .methodCall (.index ..) _ _ _, _, _, h => nomatch h

/-- The code of renamed arguments is the same. -/
theorem argumentsCode_rename (kind : base'.kind = base.kind) :
    ∀ {es : List Expr} {code : List Instruction},
    (∀ m ∈ allMentions declared es, m.Kept f base base') →
    argumentsCode ⟨className, base.defineLocals declared⟩ es = .ok code →
    argumentsCode ⟨className, base'.defineLocals (renameTyped f declared)⟩ (renameAll f es) =
      .ok code
  | [], _, _, h => h
  | e :: es, _, kept, h => by
    obtain ⟨a, ha, h⟩ := generated_bind.1 h
    obtain ⟨b, hb, h⟩ := generated_bind.1 h
    obtain ⟨keptFirst, keptRest⟩ := List.forall_mem_append.1 kept
    exact generated_bind.2 ⟨a, Expr.code_rename kind keptFirst ha,
      generated_bind.2 ⟨b, argumentsCode_rename kind keptRest hb, h⟩⟩

end

end

/-! ### Statements -/

mutual

/-- The code of a renamed statement is the same, and so are the labels taken. The locals behind it
are the renamed ones. -/
theorem Stmt.code_rename (kind : base'.kind = base.kind) {declared : List (String × String)} :
    ∀ {s : Stmt} {n : Nat} {code : List Instruction} {frame : Frame},
    (∀ m ∈ s.mentions declared, m.Kept f base base') →
    s.code className ⟨base.defineLocals declared, n⟩ = .ok (code, frame) →
    (s.rename f).code className ⟨base'.defineLocals (renameTyped f declared), n⟩ =
      .ok (code, ⟨base'.defineLocals (renameTyped f (declared ++ s.locals)), frame.nextLabel⟩)
  | .declare d, n, _, _, _, h => by
    cases h
    rw [Stmt.rename, Stmt.code, Frame.declare, Scope.withLocals_eq, Declaration.typed_rename,
      Stmt.locals, renameTyped_append, Scope.defineLocals_append]
    rfl
  | .assign name value position, n, _, _, kept, h => by
    obtain ⟨a, ha, h⟩ := generated_bind.1 h
    obtain ⟨v, hv, h⟩ := generated_bind.1 h
    cases h
    obtain ⟨keptValue, keptName⟩ := List.forall_mem_append.1 kept
    have valueCode := Expr.code_rename kind keptValue ha
    have nameCode := Site.lookup_rename (keptName _ List.mem_cons_self) nofun hv
    rw [Stmt.locals, List.append_nil]
    exact generated_bind.2 ⟨a, valueCode, generated_bind.2 ⟨_, nameCode, rfl⟩⟩
  | .assignElement name subscript value position, n, _, _, kept, h => by
    obtain ⟨a, ha, h⟩ := generated_bind.1 h
    obtain ⟨v, hv, h⟩ := generated_bind.1 h
    obtain ⟨b, hb, h⟩ := generated_bind.1 h
    cases h
    obtain ⟨keptValue, kept⟩ := List.forall_mem_append.1 kept
    obtain ⟨keptName, keptSubscript⟩ := List.forall_mem_cons.1 kept
    have valueCode := Expr.code_rename kind keptValue ha
    have arrayCode := Site.lookup_rename keptName nofun hv
    have subscriptCode := Expr.code_rename kind keptSubscript hb
    rw [Stmt.locals, List.append_nil]
    exact generated_bind.2 ⟨a, valueCode, generated_bind.2 ⟨_, arrayCode,
      generated_bind.2 ⟨b, subscriptCode, rfl⟩⟩⟩
  | .ifThen condition body, n, _, _, kept, h => by
    obtain ⟨a, ha, h⟩ := generated_bind.1 h
    obtain ⟨⟨b, f₁⟩, hb, h⟩ := generated_bind.1 h
    cases h
    obtain ⟨keptCondition, keptBody⟩ := List.forall_mem_append.1 kept
    have conditionCode := Expr.code_rename kind keptCondition ha
    have bodyCode := blockCode_rename kind keptBody hb
    exact generated_bind.2 ⟨a, conditionCode, generated_bind.2 ⟨_, bodyCode, rfl⟩⟩
  | .ifElse condition body alternative, n, _, _, kept, h => by
    obtain ⟨a, ha, h⟩ := generated_bind.1 h
    obtain ⟨⟨b, scope, n₁⟩, hb, h⟩ := generated_bind.1 h
    obtain ⟨⟨c, f₂⟩, hc, h⟩ := generated_bind.1 h
    cases h
    -- the alternative sees what the first block declares
    obtain rfl : scope = _ := blockCode_locals rfl hb
    obtain ⟨kept, keptAlternative⟩ := List.forall_mem_append.1 kept
    obtain ⟨keptCondition, keptBody⟩ := List.forall_mem_append.1 kept
    have conditionCode := Expr.code_rename kind keptCondition ha
    have bodyCode := blockCode_rename kind keptBody hb
    have alternativeCode := blockCode_rename kind keptAlternative hc
    rw [Stmt.locals, ← List.append_assoc]
    exact generated_bind.2 ⟨a, conditionCode, generated_bind.2 ⟨_, bodyCode,
      generated_bind.2 ⟨_, alternativeCode, rfl⟩⟩⟩
  | .repeatWhile condition body, n, _, _, kept, h => by
    obtain ⟨a, ha, h⟩ := generated_bind.1 h
    obtain ⟨⟨b, f₁⟩, hb, h⟩ := generated_bind.1 h
    cases h
    obtain ⟨keptCondition, keptBody⟩ := List.forall_mem_append.1 kept
    have conditionCode := Expr.code_rename kind keptCondition ha
    have bodyCode := blockCode_rename kind keptBody hb
    exact generated_bind.2 ⟨a, conditionCode, generated_bind.2 ⟨_, bodyCode, rfl⟩⟩
  | .perform call _, n, _, _, kept, h => by
    obtain ⟨a, ha, h⟩ := generated_bind.1 h
    cases h
    rw [Stmt.locals, List.append_nil]
    exact generated_bind.2 ⟨a, Expr.code_rename (e := call) kind kept ha, rfl⟩
  | .giveBack none _, n, _, _, _, h => by
    cases h
    rw [Stmt.locals, List.append_nil]
    rfl
  | .giveBack (some value) _, n, _, _, kept, h => by
    obtain ⟨a, ha, h⟩ := generated_bind.1 h
    cases h
    rw [Stmt.locals, List.append_nil]
    exact generated_bind.2 ⟨a, Expr.code_rename (e := value) kind kept ha, rfl⟩

/-- The code of a renamed block is the same. -/
theorem blockCode_rename (kind : base'.kind = base.kind) {declared : List (String × String)} :
    ∀ {ss : List Stmt} {n : Nat} {code : List Instruction} {frame : Frame},
    (∀ m ∈ blockMentions declared ss, m.Kept f base base') →
    blockCode className ss ⟨base.defineLocals declared, n⟩ = .ok (code, frame) →
    blockCode className (renameBlock f ss) ⟨base'.defineLocals (renameTyped f declared), n⟩ =
      .ok (code, ⟨base'.defineLocals (renameTyped f (declared ++ blockLocals ss)), frame.nextLabel⟩)
  | [], _, _, _, _, h => by
    cases h
    rw [blockLocals, List.append_nil]
    rfl
  | s :: ss, n, _, _, kept, h => by
    obtain ⟨⟨a, f₁⟩, ha, h⟩ := generated_bind.1 h
    obtain ⟨⟨b, f₂⟩, hb, h⟩ := generated_bind.1 h
    cases h
    obtain ⟨keptFirst, keptRest⟩ := List.forall_mem_append.1 kept
    obtain ⟨scope, n₁⟩ := f₁
    obtain rfl : scope = _ := Stmt.code_locals rfl ha
    have first := Stmt.code_rename kind keptFirst ha
    have rest := blockCode_rename kind keptRest hb
    rw [renameBlock, blockCode, blockLocals, ← List.append_assoc]
    exact generated_bind.2 ⟨_, first, generated_bind.2 ⟨_, rest, rfl⟩⟩

end

/-! ### Routines -/

/-- **The names of variables do not reach the code.** The parameters and locals of a routine can get
other names, different ones for different variables and none that the body uses for something else.
If every place that is renamed, where a variable is read or assigned and in front of a call, stands
for a parameter or for a local declared in front of it, then the renamed routine has the same
instructions. -/
theorem Routine.code_renamed {r : Routine} {table : Table} {code : List Instruction}
    (renames : r.Renaming f)
    (own : ∀ m ∈ r.mentions, m.use ≠ .this → m.name ∈ r.ownNames → m.IsOwn (r.scope table))
    (h : r.code className table = .ok code) : (r.rename f).code className table = .ok code := by
  obtain ⟨⟨body, frame⟩, hb, h⟩ := generated_bind.1 h
  cases h
  change blockCode className r.body ⟨r.scope table, 0⟩ = .ok (body, frame) at hb
  have kind : ((r.rename f).scope table).kind = (r.scope table).kind :=
    ((r.rename f).scopeAt_kind table []).trans (r.scopeAt_kind table []).symm
  have kept : ∀ m ∈ r.mentions, m.Kept f (r.scope table) ((r.rename f).scope table) :=
    fun m hm => renames.kept hm (own m hm)
  have count : ((r.rename f).scopeAt table (renameTyped f (blockLocals r.body))).localCount =
      frame.scope.localCount := by
    rw [renames.localCount, blockCode_locals (Scope.defineLocals_nil _).symm hb]
    rfl
  rw [← Scope.defineLocals_nil (r.scope table)] at hb
  have renamed := blockCode_rename kind kept hb
  rw [renameTyped, List.map_nil, Scope.defineLocals_nil] at renamed
  rw [← count]
  exact generated_bind.2 ⟨_, renamed, rfl⟩

/-- `method void move(Point p, int n) { var Array a; let x = n; let a[n] = x; do p.move(a, n);
do Output.println(); return; }` -/
def mover : Routine where
  kind := .method
  returnType := .void
  name := "move"
  parameters := [⟨.named "Point", "p", none⟩, ⟨.int, "n", none⟩]
  body := [
    .declare ⟨.named "Array", ["a"], none⟩,
    .assign "x" (.reference "n" none) none,
    .assignElement "a" (.reference "n" none) (.reference "x" none) none,
    .perform (.methodCall (.reference "p" none) "move"
      [.reference "a" none, .reference "n" none] none) none,
    .perform (.methodCall (.reference "Output" none) "println" [] none) none,
    .giveBack none none]
  position := none

/-- The table of a class with a field `x`. -/
def moverTable : Table := Table.empty.declare .field "int" ["x"]

/-- Other names for the variables of the routine. -/
def moverNames (name : String) : String := if name ∈ mover.ownNames then "my" ++ name else name

/-- The parameters and the local get other names. The field and the class `Output` keep theirs. -/
theorem mover_rename : mover.Renaming moverNames ∧
    (∀ m ∈ mover.mentions, m.use ≠ .this → m.name ∈ mover.ownNames →
      m.IsOwn (mover.scope moverTable)) ∧
    ∃ code, mover.code "Point" moverTable = .ok code ∧
      (mover.rename moverNames).code "Point" moverTable = .ok code := by
  have renames : mover.Renaming moverNames := by
    refine ⟨fun name other => if_neg other, ?_, ?_⟩
    · have different : ∀ a ∈ mover.ownNames, ∀ b ∈ mover.ownNames,
        moverNames a = moverNames b → a = b := by decide
      exact fun a ha b hb => different a ha b hb
    · decide
  have own : ∀ m ∈ mover.mentions, m.use ≠ .this → m.name ∈ mover.ownNames →
      m.IsOwn (mover.scope moverTable) := by
    simp only [Routine.isOwn_iff]
    decide
  have h : mover.code "Point" moverTable = .ok _ := rfl
  exact ⟨renames, own, _, h, Routine.code_renamed renames own h⟩

end JackCompiler
