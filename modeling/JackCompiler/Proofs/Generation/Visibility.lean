import JackCompiler.Compilation
import JackCompiler.Proofs.Generation.Accesses
import JackCompiler.Proofs.Names.Resolution
/-!
# Fields in a function

A function has no object, so in its body the name of a field stands for nothing, unless a local, a
parameter or a static has that name too. Where such a name is read or assigned, the class is
refused. Only in front of a call it is let through: there it is taken for the name of a class.

        field Point p;     function … let q = p;       refused
                           function … do p.move();     call p.move 0
-/

namespace JackCompiler

variable {c : ClassTree} {r : Routine} {m : Mention}

/-- In a class that has a chunk, every mention is allowed. -/
theorem ClassTree.mentions_allowed {chunk : Chunk} (h : c.chunk = .ok chunk) (hr : r ∈ c.routines)
    (hm : m ∈ r.mentions) : m.Allowed (r.scope c.table) := by
  obtain ⟨code, -, generated⟩ := exists_mem_of_forall₂ (chunk_routines h).flip hr
  obtain ⟨body, -, follows⟩ := Routine.body_follows generated
  exact follows.allowed m hm

/-- In a function a name stands for nothing if it is no local so far, no parameter and no static. -/
theorem ClassTree.function_resolves_nothing {declared : List (String × String)} {name : String}
    (function : r.kind = .function) (undeclared : name ∉ declared.map Prod.fst)
    (parameter : name ∉ r.parameterNames) (static : name ∉ c.staticNames) :
    (r.scopeAt c.table declared).resolve name = none :=
  Routine.resolve_eq_none.2 ⟨undeclared, parameter, by simp [function, RoutineKind.hasReceiver],
    static⟩

/-- A receiver that stands for nothing is taken for the name of a class, and nothing is pushed in
front of the arguments. -/
theorem Expr.methodCall_code_of_none {site : Site} {name method : String}
    {p position : Option Position} {arguments : List Expr} (h : site.scope.resolve name = none) :
    (Expr.methodCall (.reference name p) method arguments position).code site =
      (argumentsCode site arguments).map
        (· ++ [callWith (qualified name method) arguments.length]) := by
  rw [Expr.code, h]
  cases argumentsCode site arguments <;> rfl

/-- **A function uses no field.** If it mentions a name that is no local so far, no parameter and no
static, then the class is refused, whether or not the name is a field. There is one exception: in
front of a call the name is that of a class. -/
theorem ClassTree.function_uses_no_field (hr : r ∈ c.routines) (function : r.kind = .function)
    (hm : m ∈ r.mentions) (undeclared : m.name ∉ m.declared.map Prod.fst)
    (parameter : m.name ∉ r.parameterNames) (static : m.name ∉ c.staticNames) :
    (m.use ≠ .receiver → ∃ e, c.chunk = .error e) ∧
    ∀ method arguments position,
      (Expr.methodCall (.reference m.name m.position) method arguments position).code
          ⟨c.name, r.scopeAt c.table m.declared⟩ =
        (argumentsCode ⟨c.name, r.scopeAt c.table m.declared⟩ arguments).map
          (· ++ [callWith (qualified m.name method) arguments.length]) := by
  have nothing := function_resolves_nothing function undeclared parameter static
  refine ⟨fun other => ?_, fun method arguments position => Expr.methodCall_code_of_none nothing⟩
  cases h : c.chunk with
  | error e => exact ⟨e, rfl⟩
  | ok chunk =>
    have allowed := mentions_allowed h hr hm
    have resolved : m.resolved (r.scope c.table) = none := nothing
    obtain ⟨use, name, position, declared⟩ := m
    cases use with
    | read | assigned | array => exact absurd resolved allowed
    | receiver => exact absurd rfl other
    | this =>
      have object : (r.scopeAt c.table declared).kind.hasReceiver := allowed
      rw [Routine.scopeAt_kind, function] at object
      cases object

/-- `function int get() { return x; }` -/
def cellGet : Routine :=
  ⟨.function, .int, "get", [], [.giveBack (some (.reference "x" none)) none], none⟩

/-- `class Cell { field int x; function int get() { return x; } }` -/
def cell : ClassTree where
  name := "Cell"
  members := [.perObject ⟨.int, ["x"], none⟩, .routine cellGet]
  position := none

/-- The field is read in a function, and the class is refused. -/
theorem cell_refused : "x" ∈ cell.fieldNames ∧ ⟨.read, "x", none, []⟩ ∈ cellGet.mentions ∧
    ∃ e, cell.chunk = .error e := by
  have routine : cellGet ∈ cell.routines := .head _
  have mentioned : ⟨.read, "x", none, []⟩ ∈ cellGet.mentions := .head _
  have refused := ClassTree.function_uses_no_field routine rfl mentioned (by decide) (by decide)
    (by decide)
  exact ⟨.head _, mentioned, refused.1 (by decide)⟩

/-- A field in front of a call is let through: the call is that of a routine of the class `p`. -/
theorem receiver_taken_for_class :
    compile "class A \x7b field Point p; function void f() \x7b do p.move(); return; \x7d \x7d" =
      .ok ⟨[.function "A.f" 0, .call "p.move" 0, .pop .temp 0, .push .constant 0, .giveBack]⟩ := by
  decide +kernel

end JackCompiler
