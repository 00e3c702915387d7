import JackCompiler.Proofs.Generation.Frames
import JackCompiler.Proofs.Generation.Routines
import JackCompiler.Proofs.Grammar.Located
import JackCompiler.Proofs.Names.Visible
/-!
# Which classes are accepted

Mentions are looked up one after the other, in the order in which code is made for them, and the
first that code cannot be made for refuses the class. Nothing else does, if methods are called on
names and on `this` alone and strings are short. So a class is accepted if and only if all of its
mentions are sound, and otherwise the first that is not is blamed.

        let a[i] = x + y;      x, y, a, i        first refused: x, though a stands in front
-/

namespace JackCompiler

/-! ### Trees that code can be made for -/

mutual

/-- Methods are called on names and on `this` alone, and strings are as short as in a source text. -/
def Expr.Generable : Expr → Prop
  | .constant .. | .boolean _ | .null | .this _ | .reference .. => True
  | .string value => value.utf8ByteSize ≤ longestText
  | .binary _ left right _ => left.Generable ∧ right.Generable
  | .unary _ operand => operand.Generable
  | .call _ arguments _ => allGenerable arguments
  | .methodCall receiver _ arguments _ => receiver.IsNamed ∧ allGenerable arguments
  | .index target subscript => target.Generable ∧ subscript.Generable

/-- All the expressions are of this form. -/
def allGenerable : List Expr → Prop
  | [] => True
  | e :: es => e.Generable ∧ allGenerable es

end

mutual

/-- All expressions of the statement are of this form. -/
def Stmt.Generable : Stmt → Prop
  | .declare _ | .giveBack none _ => True
  | .assign _ value _ => value.Generable
  | .assignElement _ subscript value _ => subscript.Generable ∧ value.Generable
  | .ifThen condition body => condition.Generable ∧ blockGenerable body
  | .ifElse condition body alternative =>
    condition.Generable ∧ blockGenerable body ∧ blockGenerable alternative
  | .repeatWhile condition body => condition.Generable ∧ blockGenerable body
  | .perform call _ => call.Generable
  | .giveBack (some value) _ => value.Generable

/-- All expressions of the block are of this form. -/
def blockGenerable : List Stmt → Prop
  | [] => True
  | s :: ss => s.Generable ∧ blockGenerable ss

end

/-- All expressions of the class are of this form. -/
def ClassTree.Generable (c : ClassTree) : Prop := ∀ r ∈ c.routines, blockGenerable r.body

/-! ### The first fault -/

/-- Why a mention refuses the class, if it does. -/
def Mention.fault? (base : Scope) (m : Mention) : Option CompileError :=
  match m.use, m.resolved base with
  | .read, none | .assigned, none | .array, none => some (.unresolvedName m.name m.position)
  | .receiver, some v =>
    if isPrimitive v.typeName then some (.notAnObject m.name v.typeName m.position) else none
  | .this, _ => if base.kind.hasReceiver then none else some (.unresolvedName m.name m.position)
  | _, _ => none

namespace Mention

variable {base : Scope} {m : Mention} {declared : List (String × String)} {name : String}
  {position : Option Position}

theorem fault?_receiver {v : Variable} (h : (base.defineLocals declared).resolve name = some v) :
    fault? base ⟨.receiver, name, position, declared⟩ =
      if isPrimitive v.typeName then some (.notAnObject name v.typeName position) else none := by
  unfold fault? resolved
  rw [h]

/-- A receiver that stands for nothing is a class. -/
theorem fault?_class (h : (base.defineLocals declared).resolve name = none) :
    fault? base ⟨.receiver, name, position, declared⟩ = none := by
  unfold fault? resolved
  rw [h]

/-- A mention is at fault if it is not allowed. -/
theorem fault?_eq_none : m.fault? base = none ↔ m.Allowed base := by
  obtain ⟨use, name, position, declared⟩ := m
  unfold fault? Allowed
  cases use <;> cases resolved base ⟨_, name, position, declared⟩ <;> simp

/-- The error of a mention at fault is about its name, at its place. -/
theorem fault?_eq_some {e : CompileError} (h : m.fault? base = some e) :
    e.kind = .nameResolution ∧ e.found = some m.name ∧ e.position = m.position := by
  unfold fault? at h
  split at h <;> first | (split at h) | skip
  all_goals cases h
  all_goals exact ⟨rfl, rfl, rfl⟩

end Mention

/-- The error with which generation ends, if it does. -/
def refusal? {α : Type} : Generated α → Option CompileError
  | .ok _ => none
  | .error e => some e

/-- Generation is refused for the first mention at fault, and for nothing else. -/
def Judged {α : Type} (base : Scope) (x : Generated α) (mentions : List Mention) : Prop :=
  refusal? x = mentions.findSome? (·.fault? base)

namespace Judged

variable {α β : Type} {base : Scope} {x : Generated α} {ms ns : List Mention}

theorem ok (a : α) : Judged base (.ok a) [] := rfl

/-- What comes later is judged only if what comes first is not refused. -/
theorem bind {f : α → Generated β} (hx : Judged base x ms)
    (hf : ∀ a, x = .ok a → Judged base (f a) ns) : Judged base (x >>= f) (ms ++ ns) := by
  unfold Judged at hx ⊢
  rw [List.findSome?_append, ← hx]
  cases x with
  | error e => rfl
  | ok a => exact hf a rfl

/-- What comes later cannot be refused. -/
theorem bind_ok {f : α → Generated β} (hx : Judged base x ms) (hf : ∀ a, ∃ b, f a = .ok b) :
    Judged base (x >>= f) ms := by
  rw [← List.append_nil ms]
  refine hx.bind fun a _ => ?_
  obtain ⟨b, hb⟩ := hf a
  rw [hb]
  exact ok b

theorem receiver {className : String} {position : Option Position}
    {declared : List (String × String)} :
    Judged base (Site.receiver ⟨className, base.defineLocals declared⟩ position)
      [⟨.this, "this", position, declared⟩] := by
  have same : (base.defineLocals declared).kind = base.kind := rfl
  rw [Judged, Site.receiver, List.findSome?_cons, List.findSome?_nil, Mention.fault?, same]
  cases base.kind.hasReceiver <;> rfl

theorem lookup {className name : String} {position : Option Position}
    {declared : List (String × String)} {use : Use}
    (h : use = .read ∨ use = .assigned ∨ use = .array) :
    Judged base (Site.lookup ⟨className, base.defineLocals declared⟩ name position)
      [⟨use, name, position, declared⟩] := by
  rw [Judged, Site.lookup, List.findSome?_cons, List.findSome?_nil]
  unfold Mention.fault? Mention.resolved
  cases (base.defineLocals declared).resolve name with
  | none => rcases h with rfl | rfl | rfl <;> rfl
  | some v => rcases h with rfl | rfl | rfl <;> rfl

/-- A mention at fault is blamed, whatever stands behind it. -/
theorem blame {m : Mention} {e : CompileError} (h : m.fault? base = some e) :
    Judged base (.error e : Generated α) (m :: ms) := by
  rw [Judged, List.findSome?_cons, h]
  rfl

/-- A mention without a fault is passed by. -/
theorem pass {m : Mention} (h : m.fault? base = none) (hx : Judged base x ms) :
    Judged base x (m :: ms) := by
  rw [Judged, List.findSome?_cons, h]
  exact hx

theorem string {value : String} (h : value.utf8ByteSize ≤ longestText) :
    Judged base (stringCode value) [] := by
  rw [stringCode, if_pos (h.trans (by decide))]
  exact ok _

end Judged

variable {base : Scope} {className : String}

mutual

/-- Generation for an expression is refused for the first of its mentions at fault. -/
theorem Expr.code_judged {declared : List (String × String)} : ∀ {e : Expr}, e.Generable →
    Judged base (e.code ⟨className, base.defineLocals declared⟩) (e.mentions declared)
  | .constant .., _ | .boolean _, _ | .null, _ => .ok _
  | .string value, short => by
    rw [Expr.Generable] at short
    exact .string short
  | .this position, _ => Judged.receiver.bind_ok fun _ => ⟨_, rfl⟩
  | .reference name position, _ => (Judged.lookup (.inl rfl)).bind_ok fun _ => ⟨_, rfl⟩
  | .binary op left right position, h => by
    rw [Expr.Generable] at h
    exact (Expr.code_judged h.1).bind fun _ _ => (Expr.code_judged h.2).bind_ok fun _ => ⟨_, rfl⟩
  | .unary op operand, h => by
    rw [Expr.Generable] at h
    exact (Expr.code_judged h).bind_ok fun _ => ⟨_, rfl⟩
  | .call name arguments position, h => by
    rw [Expr.Generable] at h
    refine (argumentsCode_judged h).bind_ok fun _ => ?_
    dsimp only
    split <;> exact ⟨_, rfl⟩
  | .methodCall receiver name arguments position, h => by
    rw [Expr.Generable] at h
    obtain ⟨named, h⟩ := h
    have pushed : Judged base (argumentsCode ⟨className, base.defineLocals declared⟩ arguments)
        (allMentions declared arguments) := argumentsCode_judged h
    cases receiver with
    | this position =>
      exact Judged.receiver.bind fun _ _ => pushed.bind_ok fun _ => ⟨_, rfl⟩
    | reference object position =>
      rw [Expr.code]
      split
      · next v hv =>
        have fault : Mention.fault? base ⟨.receiver, object, position, declared⟩ =
            if isPrimitive v.typeName then some (.notAnObject object v.typeName position)
            else none := Mention.fault?_receiver hv
        split
        · next primitive => exact .blame (fault.trans (if_pos primitive))
        · next object => exact .pass (fault.trans (if_neg object)) (pushed.bind_ok fun _ => ⟨_, rfl⟩)
      · next hv => exact .pass (Mention.fault?_class hv) (pushed.bind_ok fun _ => ⟨_, rfl⟩)
    | _ => exact named.elim
  | .index target subscript, h => by
    rw [Expr.Generable] at h
    exact (Expr.code_judged h.1).bind fun _ _ => (Expr.code_judged h.2).bind_ok fun _ => ⟨_, rfl⟩

theorem argumentsCode_judged {declared : List (String × String)} : ∀ {es : List Expr},
    allGenerable es → Judged base (argumentsCode ⟨className, base.defineLocals declared⟩ es)
      (allMentions declared es)
  | [], _ => .ok _
  | e :: es, h => by
    rw [allGenerable] at h
    exact (Expr.code_judged h.1).bind fun _ _ => (argumentsCode_judged h.2).bind_ok fun _ => ⟨_, rfl⟩

end

mutual

/-- Generation for a statement is refused for the first of its mentions at fault. -/
theorem Stmt.code_judged {declared : List (String × String)} : ∀ {s : Stmt} {f : Frame},
    f.scope = base.defineLocals declared → s.Generable →
    Judged base (s.code className f) (s.mentions declared)
  | .declare _, _, _, _ | .giveBack none _, _, _, _ => .ok _
  | .assign name value position, ⟨_, n⟩, rfl, h => by
    rw [Stmt.Generable] at h
    exact (Expr.code_judged h).bind fun _ _ =>
      (Judged.lookup (.inr (.inl rfl))).bind_ok fun _ => ⟨_, rfl⟩
  | .assignElement name subscript value position, ⟨_, n⟩, rfl, h => by
    rw [Stmt.Generable] at h
    exact (Expr.code_judged h.2).bind fun _ _ => (Judged.lookup (.inr (.inr rfl))).bind fun _ _ =>
      (Expr.code_judged h.1).bind_ok fun _ => ⟨_, rfl⟩
  | .ifThen condition body, ⟨_, n⟩, rfl, h => by
    rw [Stmt.Generable] at h
    exact (Expr.code_judged h.1).bind fun _ _ => (blockCode_judged rfl h.2).bind_ok fun _ => ⟨_, rfl⟩
  | .ifElse condition body alternative, ⟨_, n⟩, rfl, h => by
    rw [Stmt.Generable] at h
    rw [Stmt.mentions, List.append_assoc]
    refine (Expr.code_judged h.1).bind fun _ _ => (blockCode_judged rfl h.2.1).bind ?_
    rintro ⟨b, f₁⟩ hb
    -- the locals of the body are visible in the alternative
    have between : f₁.scope = base.defineLocals (declared ++ blockLocals body) :=
      blockCode_locals rfl hb
    exact (blockCode_judged between h.2.2).bind_ok fun _ => ⟨_, rfl⟩
  | .repeatWhile condition body, ⟨_, n⟩, rfl, h => by
    rw [Stmt.Generable] at h
    exact (Expr.code_judged h.1).bind fun _ _ => (blockCode_judged rfl h.2).bind_ok fun _ => ⟨_, rfl⟩
  | .perform call _, ⟨_, n⟩, rfl, h => by
    rw [Stmt.Generable] at h
    exact (Expr.code_judged h).bind_ok fun _ => ⟨_, rfl⟩
  | .giveBack (some value) _, ⟨_, n⟩, rfl, h => by
    rw [Stmt.Generable] at h
    exact (Expr.code_judged h).bind_ok fun _ => ⟨_, rfl⟩

/-- Generation for a block is refused for the first of its mentions at fault. -/
theorem blockCode_judged {declared : List (String × String)} : ∀ {ss : List Stmt} {f : Frame},
    f.scope = base.defineLocals declared → blockGenerable ss →
    Judged base (blockCode className ss f) (blockMentions declared ss)
  | [], _, _, _ => .ok _
  | s :: ss, f, scope, h => by
    rw [blockGenerable] at h
    refine (Stmt.code_judged scope h.1).bind ?_
    rintro ⟨a, f₁⟩ ha
    have between := Stmt.code_locals scope ha
    exact (blockCode_judged between h.2).bind_ok fun _ => ⟨_, rfl⟩

end

/-! ### Routines and classes -/

/-- Generation for a routine is refused for the first of its mentions at fault. -/
theorem Routine.code_judged {r : Routine} {table : Table} (h : blockGenerable r.body) :
    Judged (r.scope table) (r.code className table) r.mentions :=
  (blockCode_judged (Scope.defineLocals_nil _).symm h).bind_ok fun _ => ⟨_, rfl⟩

/-- Routines are finished up to the first that is refused. -/
theorem Generator.finishRoutines_refusal? (table : Table) (g : Generator) (rs : List Routine) :
    (finishRoutines className table g rs).2 =
      rs.findSome? fun r => refusal? (r.code className table) := by
  induction rs generalizing g with
  | nil => rfl
  | cons r rs ih =>
    rw [finishRoutines, List.findSome?_cons]
    cases r.code className table with
    | ok code => exact ih _
    | error e => rfl

namespace ClassTree

variable {c : ClassTree}

theorem refusal?_chunk (c : ClassTree) :
    refusal? c.chunk = c.routines.findSome? fun r => refusal? (r.code c.name c.table) := by
  rw [← Generator.finishRoutines_refusal? c.table .fresh, chunk, Generator.generate]
  split <;> simp_all [refusal?]

/-- A class is refused for the first mention at fault, in its first routine that has one. -/
theorem refusal?_eq (h : c.Generable) : refusal? c.chunk =
    c.routines.findSome? fun r => r.mentions.findSome? (·.fault? (r.scope c.table)) := by
  rw [refusal?_chunk]
  have each : ∀ r ∈ c.routines, refusal? (r.code c.name c.table) =
      r.mentions.findSome? (·.fault? (r.scope c.table)) := fun r hr => Routine.code_judged (h r hr)
  generalize c.routines = rs at each ⊢
  induction rs with
  | nil => rfl
  | cons r rs ih =>
    obtain ⟨first, others⟩ := List.forall_mem_cons.1 each
    rw [List.findSome?_cons, List.findSome?_cons, first, ih others]

/-- **A class is accepted if and only if all of its mentions are sound**, and otherwise the first
that is not is blamed by its name and at its place: the first in the body of the first routine that
has one. -/
theorem chunk_accepted_iff (h : c.Generable) :
    ((∃ chunk, c.chunk = .ok chunk) ↔ ∀ r ∈ c.routines, ∀ m ∈ r.mentions, m.Sound c r) ∧
    ∀ e, c.chunk = .error e → e.kind = .nameResolution ∧
      ∃ before r after front m behind,
        c.routines = before ++ r :: after ∧ (∀ r' ∈ before, ∀ m' ∈ r'.mentions, m'.Sound c r') ∧
        r.mentions = front ++ m :: behind ∧ (∀ m' ∈ front, m'.Sound c r) ∧
        ¬ m.Sound c r ∧ e.found = some m.name ∧ e.position = m.position := by
  have refusal := refusal?_eq h
  have sound (r : Routine) (m : Mention) : m.fault? (r.scope c.table) = none ↔ m.Sound c r :=
    Mention.fault?_eq_none.trans Mention.allowed_iff
  constructor
  · have accepted : (∃ chunk, c.chunk = .ok chunk) ↔ refusal? c.chunk = none := by
      cases c.chunk <;> simp [refusal?]
    simp only [accepted, refusal, List.findSome?_eq_none_iff, sound]
  · intro e he
    rw [he] at refusal
    obtain ⟨before, r, after, routines, found, earlier⟩ :=
      List.findSome?_eq_some_iff.1 refusal.symm
    obtain ⟨front, m, behind, mentions, fault, first⟩ := List.findSome?_eq_some_iff.1 found
    simp only [List.findSome?_eq_none_iff, sound] at earlier first
    have unsound : ¬ m.Sound c r := by
      rw [← sound, fault]
      exact Option.some_ne_none e
    obtain ⟨kind, name, place⟩ := Mention.fault?_eq_some fault
    exact ⟨kind, before, r, after, front, m, behind, routines, earlier, mentions, first, unsound,
      name, place⟩

end ClassTree

/-- `class Trail { function void walk(int p) { … } }` with these statements. -/
def trail (body : List Stmt) : ClassTree where
  name := "Trail"
  members := [.routine ⟨.function, .void, "walk", [⟨.int, "p", none⟩], body, none⟩]
  position := none

/-- `while (true) { var Point p; }` -/
def redeclare : Stmt := .repeatWhile (.boolean true) [.declare ⟨.named "Point", ["p"], none⟩]

/-- `do p.move();` -/
def moveOn : Stmt := .perform (.methodCall (.reference "p" (some ⟨3, 5, 40⟩)) "move" [] none) none

/-- Behind the loop the name is that of an object, in front of it that of a number. -/
theorem trail_accepted : (trail [redeclare, moveOn]).Generable ∧
    (∃ chunk, (trail [redeclare, moveOn]).chunk = .ok chunk) ∧
    (trail [moveOn, redeclare]).Generable ∧
    ∃ e, (trail [moveOn, redeclare]).chunk = .error e ∧ e.found = some "p" ∧
      e.position = some ⟨3, 5, 40⟩ := by
  have generable (body : List Stmt) (h : blockGenerable body) : (trail body).Generable :=
    List.forall_mem_singleton.2 h
  have loop : redeclare.Generable := by
    simp [redeclare, Stmt.Generable, Expr.Generable, blockGenerable]
  have call : moveOn.Generable := by
    simp [moveOn, Stmt.Generable, Expr.Generable, Expr.IsNamed, allGenerable]
  have late := generable [redeclare, moveOn] (by simp [blockGenerable, loop, call])
  have early := generable [moveOn, redeclare] (by simp [blockGenerable, loop, call])
  refine ⟨late, (ClassTree.chunk_accepted_iff late).1.2 (by decide), early, ?_⟩
  obtain ⟨accepted, blamed⟩ := ClassTree.chunk_accepted_iff early
  cases refused : (trail [moveOn, redeclare]).chunk with
  | ok chunk => exact absurd (accepted.1 ⟨chunk, refused⟩) (by decide)
  | error e =>
    obtain ⟨-, before, r, after, front, m, behind, routines, -, mentions, -, -, name, place⟩ :=
      blamed e refused
    have routine : r ∈ (trail [moveOn, redeclare]).routines := by
      rw [routines]
      exact List.mem_append_right _ (.head _)
    have mention : m ∈ r.mentions := by
      rw [mentions]
      exact List.mem_append_right _ (.head _)
    -- the receiver is all that the body mentions
    obtain rfl := List.mem_singleton.1 routine
    obtain rfl := List.mem_singleton.1 mention
    exact ⟨e, rfl, name, place⟩

end JackCompiler
