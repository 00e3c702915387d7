import JackCompiler.Proofs.Generation.Frames
/-!
# The directive counts the locals

The directive of a routine stands in front of its body, but its number is read off the scope behind
the body. That scope has a slot for each name that the body declares, also for one that only a block
deep inside declares, and one slot for a name that is declared more than once, whatever its types.

        function A.f 3         var int a;
        ▲                      if (…) { var int b, c; } else { var boolean a; }
        └────── 3 ──────────── a, b, c
-/

namespace JackCompiler

/-- A block declares a name: in a statement of its own, or in a block inside, at whatever depth. -/
inductive Declares (name : String) : List Stmt → Prop
  | here {d : Declaration} {behind : List Stmt} (member : name ∈ d.names) :
      Declares name (.declare d :: behind)
  | ifThen {condition : Expr} {body behind : List Stmt} (inside : Declares name body) :
      Declares name (.ifThen condition body :: behind)
  | consequent {condition : Expr} {body alternative behind : List Stmt}
      (inside : Declares name body) : Declares name (.ifElse condition body alternative :: behind)
  | alternative {condition : Expr} {body alternative behind : List Stmt}
      (inside : Declares name alternative) :
      Declares name (.ifElse condition body alternative :: behind)
  | loop {condition : Expr} {body behind : List Stmt} (inside : Declares name body) :
      Declares name (.repeatWhile condition body :: behind)
  | later {s : Stmt} {behind : List Stmt} (inside : Declares name behind) :
      Declares name (s :: behind)

variable {name : String}

/-- The names of a declaration are those with their types, without the types. -/
theorem Declaration.map_typed (d : Declaration) : d.typed.map Prod.fst = d.names := by
  simp [typed, Function.comp_def]

mutual

/-- A name among those of a statement is declared there. -/
theorem Stmt.declares_of_mem : ∀ {s : Stmt} {behind : List Stmt},
    name ∈ s.locals.map Prod.fst → Declares name (s :: behind)
  | .declare d, _, h => by
    rw [Stmt.locals, d.map_typed] at h
    exact .here h
  | .ifThen _ body, _, h => .ifThen (declares_of_mem h)
  | .ifElse _ body alternative, _, h => by
    rw [Stmt.locals, List.map_append] at h
    rcases List.mem_append.1 h with body | alternative
    · exact .consequent (declares_of_mem body)
    · exact .alternative (declares_of_mem alternative)
  | .repeatWhile _ body, _, h => .loop (declares_of_mem h)
  | .assign .., _, h | .assignElement .., _, h | .perform .., _, h | .giveBack .., _, h => nomatch h

/-- A name among those of a block is declared there. -/
theorem declares_of_mem : ∀ {ss : List Stmt},
    name ∈ (blockLocals ss).map Prod.fst → Declares name ss
  | [], h => nomatch h
  | s :: ss, h => by
    rw [blockLocals, List.map_append] at h
    rcases List.mem_append.1 h with first | rest
    · exact Stmt.declares_of_mem first
    · exact .later (declares_of_mem rest)

end

/-- The names of a block are those that it declares. -/
theorem mem_blockLocals {ss : List Stmt} :
    name ∈ (blockLocals ss).map Prod.fst ↔ Declares name ss := by
  refine ⟨declares_of_mem, fun h => ?_⟩
  induction h with
  | here member =>
    rw [blockLocals, List.map_append, Stmt.locals, Declaration.map_typed]
    exact List.mem_append_left _ member
  | ifThen _ ih | loop _ ih =>
    rw [blockLocals, List.map_append]
    exact List.mem_append_left _ ih
  | consequent _ ih =>
    rw [blockLocals, List.map_append, Stmt.locals, List.map_append]
    exact List.mem_append_left _ (List.mem_append_left _ ih)
  | alternative _ ih =>
    rw [blockLocals, List.map_append, Stmt.locals, List.map_append]
    exact List.mem_append_left _ (List.mem_append_right _ ih)
  | later _ ih =>
    rw [blockLocals, List.map_append]
    exact List.mem_append_right _ ih

/-- A routine opens with its directive, which counts the different names that the body declares. -/
def CountsLocals (className : String) (r : Routine) (code : List Instruction) : Prop :=
  ∃ names : Finset String, (∀ name, name ∈ names ↔ Declares name r.body) ∧
    ∃ count rest, code = .function (qualified className r.name) count :: rest ∧
      (names.card < 65536 → count.toNat = names.card)

theorem Routine.code_countsLocals {className : String} {table : Table} {r : Routine}
    {code : List Instruction} (h : r.code className table = .ok code) :
    CountsLocals className r code := by
  obtain ⟨body, f, hb, rfl⟩ := Routine.code_eq_ok h
  refine ⟨r.localNames.toFinset, fun name => ?_, _, _, rfl, fun room => ?_⟩
  · rw [List.mem_toFinset, localNames, mem_blockLocals]
  · rw [← distinctNames_eq_card] at room ⊢
    have count := r.localCount_lastScope table
    rw [lastScope] at count
    rw [count, UInt16.toNat_ofNat_of_lt' room]

/-- **The directive of every routine counts the different names that its body declares, at whatever
depth.** -/
theorem ClassTree.chunk_countsLocals {c : ClassTree} {chunk : Chunk} (h : c.chunk = .ok chunk) :
    List.Forall₂ (CountsLocals c.name) c.routines chunk.routines :=
  (chunk_routines h).imp fun _ _ => Routine.code_countsLocals

/-- `class Main { function void f() { var int a; if (true) { var int b, c; while (false) {
var boolean a, d; } } else { var char b; } return; } }` -/
def nestedLocals : ClassTree where
  name := "Main"
  members := [
    .routine ⟨.function, .void, "f", [],
      [.declare ⟨.int, ["a"], none⟩,
        .ifElse (.boolean true)
          [.declare ⟨.int, ["b", "c"], none⟩,
            .repeatWhile (.boolean false) [.declare ⟨.boolean, ["a", "d"], none⟩]]
          [.declare ⟨.char, ["b"], none⟩],
        .giveBack none none], none⟩]
  position := none

/-- Six names are declared at three depths, and four are different. -/
theorem nestedLocals_counted : ∃ chunk, nestedLocals.chunk = .ok chunk ∧
    chunk.routines.map List.head? = [some (.function "Main.f" 4)] ∧
    List.Forall₂ (CountsLocals "Main") nestedLocals.routines chunk.routines := by
  have h : nestedLocals.chunk = .ok _ := rfl
  exact ⟨_, h, by decide, ClassTree.chunk_countsLocals h⟩

end JackCompiler
