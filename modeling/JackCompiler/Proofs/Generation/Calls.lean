import JackCompiler.Proofs.Generation.Routines
import JackCompiler.Proofs.Names.RoutineScope
/-!
# The number of arguments of a call

For a call its receiver is pushed, if it has one, and then its arguments, and the instruction behind
them says how many values that are. No list of arguments is too long to be accepted, but the number
is a word: of the values pushed it counts those beyond the last full 65536. So the routine that is
called finds all of them, and nothing else, just if fewer than 65536 were pushed.

        do p.move(1, 2);     push p, push 1, push 2, call Point.move 3
                             └──────── 3 values ───────┘
-/

namespace JackCompiler

/-! ### The calls of a body -/

/-- What a routine is called on. -/
inductive CallTarget
  /-- A call by the bare name: on the object of the caller, if it has one. -/
  | own
  | this
  /-- A variable, or a class where the name stands for no variable. -/
  | named (object : String)
  deriving DecidableEq, Repr

/-- A call in a body, with the locals declared in front of it and their types. -/
structure Invocation where
  target : CallTarget
  routine : String
  arguments : List Expr
  declared : List (String × String)
  deriving Repr

section

variable (declared : List (String × String))

mutual

/-- The calls in an expression, behind the locals declared in front of it, in the order of their
instructions: those in the arguments of a call are made before it. -/
def Expr.invocations : Expr → List Invocation
  | .constant .. | .boolean _ | .string _ | .null | .this _ | .reference .. => []
  | .binary _ left right _ => left.invocations ++ right.invocations
  | .unary _ operand => operand.invocations
  | .call name arguments _ =>
    allInvocations arguments ++ [⟨.own, name, arguments, declared⟩]
  | .methodCall (.this _) name arguments _ =>
    allInvocations arguments ++ [⟨.this, name, arguments, declared⟩]
  | .methodCall (.reference object _) name arguments _ =>
    allInvocations arguments ++ [⟨.named object, name, arguments, declared⟩]
  -- no code is made for a call on anything else
  | .methodCall receiver _ arguments _ => receiver.invocations ++ allInvocations arguments
  | .index target subscript => target.invocations ++ subscript.invocations

/-- The calls in expressions, one after the other. -/
def allInvocations : List Expr → List Invocation
  | [] => []
  | e :: es => e.invocations ++ allInvocations es

end

end

mutual

/-- The calls in a statement, behind the locals declared in front of it. -/
def Stmt.invocations (declared : List (String × String)) : Stmt → List Invocation
  | .declare _ | .giveBack none _ => []
  | .assign _ value _ | .giveBack (some value) _ => value.invocations declared
  | .assignElement _ subscript value _ =>
    value.invocations declared ++ subscript.invocations declared
  | .ifThen condition body => condition.invocations declared ++ blockInvocations declared body
  | .ifElse condition body alternative =>
    condition.invocations declared ++ blockInvocations declared body ++
      blockInvocations (declared ++ blockLocals body) alternative
  | .repeatWhile condition body => condition.invocations declared ++ blockInvocations declared body
  | .perform call _ => call.invocations declared

/-- The calls in a block: each statement behind the locals that those in front of it declare. -/
def blockInvocations (declared : List (String × String)) : List Stmt → List Invocation
  | [] => []
  | s :: ss => s.invocations declared ++ blockInvocations (declared ++ s.locals) ss

end

/-- The calls in the body of a routine. -/
def Routine.invocations (r : Routine) : List Invocation := blockInvocations [] r.body

/-! ### Calls in a scope -/

namespace Invocation

variable (className : String) (base : Scope) (v : Invocation)

/-- The scope at the call, in a routine with this scope in front of its body. -/
def scope : Scope := base.defineLocals v.declared

/-- What pushes the receiver, if there is one. -/
def receiver? : Option Instruction :=
  match v.target with
  | .own => if base.kind.hasReceiver then some pushObject else none
  | .this => some pushObject
  | .named object => ((v.scope base).resolve object).map Variable.push

/-- The routine that is called: of the own class, of the class of a variable, or of the class that
is named. -/
def callee : String :=
  match v.target with
  | .own | .this => qualified className v.routine
  | .named object => qualified (((v.scope base).resolve object).elim object (·.typeName)) v.routine

/-- The number of values that are pushed for a call: its arguments, and a receiver if there is one. -/
def pushed : Nat := v.arguments.length + if (v.receiver? base).isSome then 1 else 0

/-- A call stands in code: behind the code of its receiver and its arguments the instruction, with
the number of values pushed as a word. -/
def EmittedIn (code : List Instruction) : Prop :=
  ∃ values, List.Forall₂ (fun e value => e.code ⟨className, v.scope base⟩ = .ok value)
      v.arguments values ∧
    (v.receiver? base).toList ++ values.flatten ++
      [callWith (v.callee className base) (v.pushed base)] <:+: code

variable {className base v} {code : List Instruction}

/-- A call in a part of some code stands in all of it. -/
theorem EmittedIn.inside {all : List Instruction} (h : v.EmittedIn className base code)
    (part : code <:+: all) : v.EmittedIn className base all := by
  obtain ⟨values, made, stands⟩ := h
  exact ⟨values, made, stands.trans part⟩

end Invocation

/-- All calls of a list stand in the code. -/
def Emits (className : String) (base : Scope) (code : List Instruction) (vs : List Invocation) :
    Prop := ∀ v ∈ vs, v.EmittedIn className base code

section

variable {className : String} {base : Scope} {a b : List Instruction} {vs ws : List Invocation}

theorem Emits.nil : Emits className base a [] := List.forall_mem_nil _

theorem Emits.append (ha : Emits className base a vs) (hb : Emits className base b ws) :
    Emits className base (a ++ b) (vs ++ ws) :=
  List.forall_mem_append.2 ⟨fun v hv => (ha v hv).inside (List.prefix_append a b).isInfix,
    fun v hv => (hb v hv).inside (List.suffix_append a b).isInfix⟩

/-- More code behind. -/
theorem Emits.followed (ha : Emits className base a vs) : Emits className base (a ++ b) vs := by
  have both := ha.append (Emits.nil (a := b))
  rwa [List.append_nil] at both

/-- More code in front. -/
theorem Emits.preceded (hb : Emits className base b vs) : Emits className base (a ++ b) vs :=
  (Emits.nil (a := a)).append hb

/-- The code of arguments is that of one after the other. -/
theorem argumentsCode_eq_ok {site : Site} {es : List Expr} (h : argumentsCode site es = .ok a) :
    ∃ values, List.Forall₂ (fun e value => e.code site = .ok value) es values ∧
      values.flatten = a := by
  induction es generalizing a with
  | nil =>
    cases h
    exact ⟨[], .nil, rfl⟩
  | cons e es ih =>
    obtain ⟨value, hv, h⟩ := generated_bind.1 h
    obtain ⟨rest, hr, h⟩ := generated_bind.1 h
    cases h
    obtain ⟨values, made, rfl⟩ := ih hr
    exact ⟨value :: values, .cons hv made, rfl⟩

variable {v : Invocation} {name : String}

/-- A call on a receiver, behind the code of its arguments and the receiver. -/
theorem Emits.onReceiver {receiver : Instruction} (arguments : Emits className base a vs)
    (made : argumentsCode ⟨className, v.scope base⟩ v.arguments = .ok a)
    (object : v.receiver? base = some receiver) (callee : v.callee className base = name) :
    Emits className base (receiver :: a ++ [callWith name (v.arguments.length + 1)])
      (vs ++ [v]) := by
  obtain ⟨values, each, rfl⟩ := argumentsCode_eq_ok made
  have behind := (arguments.preceded (a := [receiver])).followed
    (b := [callWith name (v.arguments.length + 1)])
  refine List.forall_mem_append.2 ⟨behind, List.forall_mem_singleton.2 ⟨values, each, ?_⟩⟩
  rw [Invocation.pushed, object, callee]
  exact List.infix_refl _

/-- A call on no receiver, behind the code of its arguments. -/
theorem Emits.onNone (arguments : Emits className base a vs)
    (made : argumentsCode ⟨className, v.scope base⟩ v.arguments = .ok a)
    (object : v.receiver? base = none) (callee : v.callee className base = name) :
    Emits className base (a ++ [callWith name v.arguments.length]) (vs ++ [v]) := by
  obtain ⟨values, each, rfl⟩ := argumentsCode_eq_ok made
  refine List.forall_mem_append.2
    ⟨arguments.followed, List.forall_mem_singleton.2 ⟨values, each, ?_⟩⟩
  rw [Invocation.pushed, object, callee]
  exact List.infix_refl _

end

/-! ### The code of a body -/

section

variable {className : String} {base : Scope} {declared : List (String × String)}

mutual

/-- The calls in an expression stand in its code. -/
theorem Expr.code_emits : ∀ {e : Expr} {code : List Instruction},
    e.code ⟨className, base.defineLocals declared⟩ = .ok code →
    Emits className base code (e.invocations declared)
  | .constant .., _, _ | .boolean _, _, _ | .string _, _, _ | .null, _, _ | .this _, _, _
  | .reference .., _, _ => .nil
  | .binary op left right _, _, h => by
    obtain ⟨a, ha, h⟩ := generated_bind.1 h
    obtain ⟨b, hb, h⟩ := generated_bind.1 h
    cases h
    exact ((Expr.code_emits ha).append (Expr.code_emits hb)).followed
  | .unary op operand, _, h => by
    obtain ⟨a, ha, h⟩ := generated_bind.1 h
    cases h
    exact (Expr.code_emits ha).followed
  | .call name arguments _, _, h => by
    obtain ⟨a, ha, h⟩ := generated_bind.1 h
    have calls := argumentsCode_emits ha
    split at h
    · next object =>
      cases h
      exact calls.onReceiver (v := ⟨.own, name, arguments, declared⟩) ha (if_pos object) rfl
    · next none =>
      cases h
      exact calls.onNone (v := ⟨.own, name, arguments, declared⟩) ha (if_neg none) rfl
  | .methodCall (.this position) name arguments _, _, h => by
    obtain ⟨i, hi, h⟩ := generated_bind.1 h
    obtain ⟨-, rfl⟩ := Site.receiver_eq_ok.1 hi
    obtain ⟨a, ha, h⟩ := generated_bind.1 h
    cases h
    have calls := argumentsCode_emits ha
    exact calls.onReceiver (v := ⟨.this, name, arguments, declared⟩) ha rfl rfl
  | .methodCall (.reference object position) name arguments _, _, h => by
    simp only [Expr.code] at h
    let v : Invocation := ⟨.named object, name, arguments, declared⟩
    split at h
    · next u hu =>
      split at h
      · cases h
      · obtain ⟨a, ha, h⟩ := generated_bind.1 h
        cases h
        have receiver : v.receiver? base = some u.push := congrArg (Option.map Variable.push) hu
        have callee : v.callee className base = qualified u.typeName name :=
          congrArg (fun o => qualified (Option.elim o object Variable.typeName) name) hu
        exact (argumentsCode_emits ha).onReceiver ha receiver callee
    · next hu =>
      -- the name of a class
      obtain ⟨a, ha, h⟩ := generated_bind.1 h
      cases h
      have receiver : v.receiver? base = none := congrArg (Option.map Variable.push) hu
      have callee : v.callee className base = qualified object name :=
        congrArg (fun o => qualified (Option.elim o object Variable.typeName) name) hu
      exact (argumentsCode_emits ha).onNone ha receiver callee
  | .index target subscript, _, h => by
    obtain ⟨a, ha, h⟩ := generated_bind.1 h
    obtain ⟨b, hb, h⟩ := generated_bind.1 h
    cases h
    rw [List.append_assoc]
    exact ((Expr.code_emits ha).append (Expr.code_emits hb)).followed

/-- The calls in arguments stand in their code. -/
theorem argumentsCode_emits : ∀ {es : List Expr} {code : List Instruction},
    argumentsCode ⟨className, base.defineLocals declared⟩ es = .ok code →
    Emits className base code (allInvocations declared es)
  | [], _, _ => .nil
  | e :: es, _, h => by
    obtain ⟨a, ha, h⟩ := generated_bind.1 h
    obtain ⟨b, hb, h⟩ := generated_bind.1 h
    cases h
    exact (Expr.code_emits ha).append (argumentsCode_emits hb)

end

mutual

/-- The calls in a statement stand in its code. -/
theorem Stmt.code_emits {declared : List (String × String)} :
    ∀ {s : Stmt} {f f' : Frame} {code : List Instruction},
    f.scope = base.defineLocals declared → s.code className f = .ok (code, f') →
    Emits className base code (s.invocations declared)
  | .declare _, _, _, _, _, _ | .giveBack none _, _, _, _, _, _ => .nil
  | .assign name value position, ⟨_, n⟩, _, _, rfl, h => by
    obtain ⟨a, ha, h⟩ := generated_bind.1 h
    obtain ⟨v, -, h⟩ := generated_bind.1 h
    cases h
    exact (Expr.code_emits ha).followed
  | .assignElement name subscript value position, ⟨_, n⟩, _, _, rfl, h => by
    obtain ⟨a, ha, h⟩ := generated_bind.1 h
    obtain ⟨v, -, h⟩ := generated_bind.1 h
    obtain ⟨b, hb, h⟩ := generated_bind.1 h
    cases h
    have address := (Expr.code_emits hb).preceded (a := [v.push])
    rw [List.append_assoc]
    exact ((Expr.code_emits ha).append address).followed
  | .ifThen condition body, ⟨_, n⟩, _, _, rfl, h => by
    obtain ⟨a, ha, h⟩ := generated_bind.1 h
    obtain ⟨⟨b, f₁⟩, hb, h⟩ := generated_bind.1 h
    cases h
    have test := (Expr.code_emits ha).followed (b := unlessGoto (doneLabel n))
    exact (test.append (blockCode_emits rfl hb)).followed
  | .ifElse condition body alternative, ⟨_, n⟩, _, _, rfl, h => by
    obtain ⟨a, ha, h⟩ := generated_bind.1 h
    obtain ⟨⟨b, f₁⟩, hb, h⟩ := generated_bind.1 h
    obtain ⟨⟨c, f₂⟩, hc, h⟩ := generated_bind.1 h
    cases h
    have between : f₁.scope = base.defineLocals (declared ++ blockLocals body) :=
      blockCode_locals rfl hb
    have test := (Expr.code_emits ha).followed (b := unlessGoto (elseLabel n))
    have passed := (blockCode_emits between hc).preceded
      (a := [.goto (doneLabel n), .label (elseLabel n)])
    exact ((test.append (blockCode_emits rfl hb)).append passed).followed
  | .repeatWhile condition body, ⟨_, n⟩, _, _, rfl, h => by
    obtain ⟨a, ha, h⟩ := generated_bind.1 h
    obtain ⟨⟨b, f₁⟩, hb, h⟩ := generated_bind.1 h
    cases h
    have begins := (Expr.code_emits ha).preceded (a := [.label (startLabel n)])
    have test := begins.followed (b := unlessGoto (endLabel n))
    exact (test.append (blockCode_emits rfl hb)).followed
  | .perform call _, ⟨_, n⟩, _, _, rfl, h => by
    obtain ⟨a, ha, h⟩ := generated_bind.1 h
    cases h
    exact (Expr.code_emits ha).followed
  | .giveBack (some value) _, ⟨_, n⟩, _, _, rfl, h => by
    obtain ⟨a, ha, h⟩ := generated_bind.1 h
    cases h
    exact (Expr.code_emits ha).followed

/-- The calls in a block stand in its code. -/
theorem blockCode_emits {declared : List (String × String)} :
    ∀ {ss : List Stmt} {f f' : Frame} {code : List Instruction},
    f.scope = base.defineLocals declared → blockCode className ss f = .ok (code, f') →
    Emits className base code (blockInvocations declared ss)
  | [], _, _, _, _, _ => .nil
  | s :: ss, f, _, _, scope, h => by
    obtain ⟨⟨a, f₁⟩, ha, h⟩ := generated_bind.1 h
    obtain ⟨⟨b, f₂⟩, hb, h⟩ := generated_bind.1 h
    cases h
    have between := Stmt.code_locals scope ha
    exact (Stmt.code_emits scope ha).append (blockCode_emits between hb)

end

end

/-! ### The number in the instruction -/

/-- A call stands in code, behind what is pushed for it. Its number is that of the values pushed if
they are fewer than 65536, and otherwise too small. -/
def Invocation.CountedIn (className : String) (base : Scope) (v : Invocation)
    (code : List Instruction) : Prop :=
  ∃ values arity,
    List.Forall₂ (fun e value => e.code ⟨className, v.scope base⟩ = .ok value)
      v.arguments values ∧
    (v.receiver? base).toList ++ values.flatten ++ [.call (v.callee className base) arity] <:+:
      code ∧
    arity.toNat = v.pushed base % 65536 ∧ (arity.toNat = v.pushed base ↔ v.pushed base < 65536)

theorem Invocation.EmittedIn.counted {className : String} {base : Scope} {v : Invocation}
    {code : List Instruction} (h : v.EmittedIn className base code) :
    v.CountedIn className base code := by
  obtain ⟨values, each, stands⟩ := h
  have number : (UInt16.ofNat (v.pushed base)).toNat = v.pushed base % 65536 :=
    UInt16.toNat_ofNat
  refine ⟨values, _, each, stands, number, ?_⟩
  rw [number]
  exact ⟨fun same => same ▸ Nat.mod_lt _ (by decide), Nat.mod_eq_of_lt⟩

/-- All calls of a routine stand in its code and count what is pushed for them. -/
def CountsArguments (c : ClassTree) (r : Routine) (code : List Instruction) : Prop :=
  ∀ v ∈ r.invocations, v.CountedIn c.name (r.scope c.table) code

theorem Routine.code_countsArguments {c : ClassTree} {r : Routine} {code : List Instruction}
    (h : r.code c.name c.table = .ok code) : CountsArguments c r code := by
  obtain ⟨body, f, hb, rfl⟩ := Routine.code_eq_ok h
  have emits : Emits c.name (r.scope c.table) body r.invocations :=
    blockCode_emits (Scope.defineLocals_nil _).symm hb
  exact fun v hv => (emits.preceded v hv).counted

/-- **Every call counts the values pushed for it, as far as a word goes.** -/
theorem ClassTree.chunk_countsArguments {c : ClassTree} {chunk : Chunk} (h : c.chunk = .ok chunk) :
    List.Forall₂ (CountsArguments c) c.routines chunk.routines :=
  (chunk_routines h).imp fun _ _ => Routine.code_countsArguments

/-- `class Node { field Node next; method int sum(int a, int b) { var Node n; let n = this;
return sum(n.sum(a, 1), this.sum(b, Node.one())); } function int one() { return one(); } }` -/
def node : ClassTree where
  name := "Node"
  members := [
    .perObject ⟨.named "Node", ["next"], none⟩,
    .routine ⟨.method, .int, "sum", [⟨.int, "a", none⟩, ⟨.int, "b", none⟩],
      [.declare ⟨.named "Node", ["n"], none⟩,
        .assign "n" (.this none) none,
        .giveBack (some (.call "sum"
          [.methodCall (.reference "n" none) "sum" [.reference "a" none, .constant 1 none] none,
            .methodCall (.this none) "sum" [.reference "b" none,
              .methodCall (.reference "Node" none) "one" [] none] none] none)) none], none⟩,
    .routine ⟨.function, .int, "one", [], [.giveBack (some (.call "one" [] none)) none], none⟩]
  position := none

/-- Calls by all kinds of targets stand in one class. -/
theorem node_countsArguments : ∃ chunk, node.chunk = .ok chunk ∧
    .call "Node.sum" 3 ∈ chunk.instructions ∧ .call "Node.one" 0 ∈ chunk.instructions ∧
    List.Forall₂ (CountsArguments node) node.routines chunk.routines := by
  have h : node.chunk = .ok _ := rfl
  exact ⟨_, h, by decide, by decide, ClassTree.chunk_countsArguments h⟩

/-! ### Too many arguments -/

/-- `function void f() { do f(0, …, 0); return; }` with a number of arguments. -/
def floodRoutine (arguments : Nat) : Routine where
  kind := .function
  returnType := .void
  name := "f"
  parameters := []
  body := [.perform (.call "f" (List.replicate arguments (.constant 0 none)) none) none,
    .giveBack none none]
  position := none

/-- `class A { function void f() { do f(0, …, 0); return; } }` with a number of arguments. -/
def flood (arguments : Nat) : ClassTree := ⟨"A", [.routine (floodRoutine arguments)], none⟩

theorem argumentsCode_replicate (site : Site) (n : Nat) :
    argumentsCode site (List.replicate n (.constant 0 none)) =
      .ok (List.replicate n (pushConstant 0)) := by
  induction n with
  | zero => rfl
  | succ n ih =>
    rw [List.replicate_succ, argumentsCode, ih]
    rfl

theorem floodRoutine_code (n : Nat) : (floodRoutine n).code "A" .empty = .ok (.function "A.f" 0 ::
    (List.replicate n (pushConstant 0) ++ [callWith "A.f" n] ++ [.pop .temp 0] ++
      [pushConstant 0, .giveBack])) := by
  simp only [Routine.code, floodRoutine, blockCode, Stmt.code, Expr.code, argumentsCode_replicate,
    List.length_replicate]
  rfl

theorem flood_chunk (n : Nat) : (flood n).chunk = .ok ⟨.function "A.f" 0 ::
    (List.replicate n (pushConstant 0) ++ [callWith "A.f" n] ++ [.pop .temp 0] ++
      [pushConstant 0, .giveBack])⟩ := by
  have routines : List.Forall₂ (fun r code => r.code "A" .empty = .ok code) (flood n).routines _ :=
    .cons (floodRoutine_code n) .nil
  rw [ClassTree.chunk_of_codes routines, List.flatten_singleton]

theorem allInvocations_replicate (declared : List (String × String)) (n : Nat) :
    allInvocations declared (List.replicate n (.constant 0 none)) = [] := by
  induction n with
  | zero => rfl
  | succ n ih =>
    rw [List.replicate_succ, allInvocations, ih]
    rfl

/-- The routine has one call, for which as many values are pushed as it has arguments. -/
theorem floodRoutine_invocations (n : Nat) : ∃ v, (floodRoutine n).invocations = [v] ∧
    v.pushed ((floodRoutine n).scope .empty) = n := by
  refine ⟨⟨.own, "f", List.replicate n (.constant 0 none), []⟩, ?_, List.length_replicate⟩
  simp only [Routine.invocations, floodRoutine, blockInvocations, Stmt.invocations,
    Expr.invocations, allInvocations_replicate]
  rfl

/-- Of 65536 values that are pushed the call counts none. -/
theorem flood_arity_truncated : (flood 65536).routines = [floodRoutine 65536] ∧
    (∃ v, (floodRoutine 65536).invocations = [v] ∧
      v.pushed ((floodRoutine 65536).scope (flood 65536).table) = 65536) ∧
    (flood 65536).chunk = .ok ⟨.function "A.f" 0 :: (List.replicate 65536 (pushConstant 0) ++
      [.call "A.f" 0] ++ [.pop .temp 0] ++ [pushConstant 0, .giveBack])⟩ :=
  ⟨rfl, floodRoutine_invocations 65536, flood_chunk 65536⟩

end JackCompiler
