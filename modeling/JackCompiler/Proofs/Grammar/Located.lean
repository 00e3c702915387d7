import JackCompiler.Proofs.Grammar.Derivation
/-!
# What trees of derivations have

A tree can be made by hand with any node below any other, and without places. The tree of a
derivation is of a stricter form: a method is called on a name or on `this` and on nothing else, no
string is longer and no number larger than a class can write down, and every node that records a
place has the place of one of the tokens.

        f(a.g("x", 7))[i]      f, a, 7, i at their tokens;  a a name;  "x" short;  7 small
-/

namespace JackCompiler

variable {P : Position → Prop}

/-- The place is recorded, and has the property. -/
def Recorded (P : Position → Prop) (position : Option Position) : Prop :=
  ∃ p, position = some p ∧ P p

/-- The expression is a name or `this`. -/
def Expr.IsNamed : Expr → Prop
  | .this _ | .reference .. => True
  | _ => False

/-- The longest string that a class can write down. -/
def longestText : Nat := 32767

mutual

/-- The expression has the form of those in source texts, and its places have the property. -/
def Expr.Located (P : Position → Prop) : Expr → Prop
  | .constant value position => Recorded P position ∧ value.toNat ≤ largestConstant
  | .this position | .reference _ position => Recorded P position
  | .boolean _ | .null => True
  | .string value => value.utf8ByteSize ≤ longestText
  | .binary _ left right position => Recorded P position ∧ left.Located P ∧ right.Located P
  | .unary _ operand => operand.Located P
  | .call _ arguments position => Recorded P position ∧ allLocated P arguments
  | .methodCall receiver _ arguments position =>
    Recorded P position ∧ receiver.IsNamed ∧ receiver.Located P ∧ allLocated P arguments
  | .index target subscript => target.Located P ∧ subscript.Located P

/-- All the expressions have that form. -/
def allLocated (P : Position → Prop) : List Expr → Prop
  | [] => True
  | e :: es => e.Located P ∧ allLocated P es

end

mutual

/-- The statement has the form of those in source texts, and its places have the property. -/
def Stmt.Located (P : Position → Prop) : Stmt → Prop
  | .declare d => Recorded P d.position
  | .assign _ value position => Recorded P position ∧ value.Located P
  | .assignElement _ subscript value position =>
    Recorded P position ∧ subscript.Located P ∧ value.Located P
  | .ifThen condition body => condition.Located P ∧ blockLocated P body
  | .ifElse condition body alternative =>
    condition.Located P ∧ blockLocated P body ∧ blockLocated P alternative
  | .repeatWhile condition body => condition.Located P ∧ blockLocated P body
  | .perform call position => Recorded P position ∧ call.Located P
  | .giveBack none position => Recorded P position
  | .giveBack (some value) position => Recorded P position ∧ value.Located P

/-- All the statements have that form. -/
def blockLocated (P : Position → Prop) : List Stmt → Prop
  | [] => True
  | s :: ss => s.Located P ∧ blockLocated P ss

end

/-- The routine has the form of those in source texts, and its places have the property. -/
structure Routine.Located (P : Position → Prop) (r : Routine) : Prop where
  place : Recorded P r.position
  parameters : ∀ p ∈ r.parameters, Recorded P p.position
  body : blockLocated P r.body

/-- The member has the form of those in source texts, and its places have the property. -/
def Member.Located (P : Position → Prop) : Member → Prop
  | .shared d | .perObject d => Recorded P d.position
  | .routine r => r.Located P

/-- The class has the form of those in source texts, and its places have the property. -/
structure ClassTree.Located (P : Position → Prop) (c : ClassTree) : Prop where
  place : Recorded P c.position
  members : ∀ m ∈ c.members, m.Located P

theorem ClassTree.Located.routines {c : ClassTree} (h : c.Located P) :
    ∀ r ∈ c.routines, r.Located P := by
  intro r member
  obtain ⟨m, inside, found⟩ := List.mem_filterMap.1 member
  have located := h.members m inside
  cases m with
  | routine _ =>
    cases found
    exact located
  | _ => cases found

theorem Recorded.some {p : Position} (h : P p) : Recorded P (some p) := ⟨p, rfl, h⟩

namespace Grammar

/-- The tokens are at places with the property. -/
def AllAt (P : Position → Prop) (ts : List Token) : Prop := ∀ t ∈ ts, P t.position

theorem allAt_cons {t : Token} {ts : List Token} :
    AllAt P (t :: ts) ↔ P t.position ∧ AllAt P ts := List.forall_mem_cons

variable {ts : List Token}

/-- The word of a number is as small as the number. -/
theorem Number.value_le (n : Number) : n.value.toNat ≤ largestConstant := by
  have word : decimalValue n.token.value.toList < UInt16.size :=
    Nat.lt_of_le_of_lt n.small (by decide)
  rw [value, UInt16.toNat_ofNat_of_lt' word]
  exact n.small

/-! ### Expressions

Each part takes its tokens off the front, and hands on that those behind it are at such places. -/

mutual

theorem Expression.located : ∀ (e : Expression) {ts : List Token}, AllAt P (e.onto ts) →
    e.tree.Located P ∧ AllAt P ts
  | .mk first rest, _, h => by
    rw [Expression.onto] at h
    obtain ⟨left, h⟩ := first.located h
    rw [Expression.tree]
    exact rest.located left h

theorem Operations.located : ∀ (ops : Operations) {left : Expr} {ts : List Token},
    left.Located P → AllAt P (ops.onto ts) → (ops.apply left).Located P ∧ AllAt P ts
  | .nil, _, _, left, h => ⟨left, h⟩
  | .cons op sign operand rest, _, _, left, h => by
    rw [Operations.onto, allAt_cons] at h
    obtain ⟨right, behind⟩ := operand.located h.2
    rw [Operations.apply]
    refine rest.located ?_ behind
    rw [Expr.Located]
    exact ⟨.some h.1, left, right⟩

theorem Unary.located : ∀ (u : Unary) {ts : List Token}, AllAt P (u.onto ts) →
    u.tree.Located P ∧ AllAt P ts
  | .sign op sign operand, _, h => by
    rw [Unary.onto, allAt_cons] at h
    rw [Unary.tree, Expr.Located]
    exact operand.located h.2
  | .plain operand, _, h => by
    rw [Unary.onto] at h
    rw [Unary.tree]
    exact operand.located h

theorem Postfix.located : ∀ (p : Postfix) {ts : List Token}, AllAt P (p.onto ts) →
    p.tree.Located P ∧ AllAt P ts
  | .plain primary, _, h => by
    rw [Postfix.onto] at h
    rw [Postfix.tree]
    exact primary.located h
  | .index primary left subscript right, _, h => by
    rw [Postfix.onto] at h
    obtain ⟨target, h⟩ := primary.located h
    obtain ⟨inner, h⟩ := subscript.located (allAt_cons.1 h).2
    rw [Postfix.tree, Expr.Located]
    exact ⟨⟨target, inner⟩, (allAt_cons.1 h).2⟩

theorem Primary.located : ∀ (p : Primary) {ts : List Token}, AllAt P (p.onto ts) →
    p.tree.Located P ∧ AllAt P ts
  | .number n, _, h => by
    rw [Primary.onto, allAt_cons] at h
    rw [Primary.tree, Expr.Located]
    exact ⟨⟨.some h.1, n.value_le⟩, h.2⟩
  | .text s, _, h => by
    rw [Primary.onto, allAt_cons] at h
    rw [Primary.tree, Expr.Located]
    exact ⟨s.short, h.2⟩
  | .true_ w, _, h | .false_ w, _, h | .null w, _, h => by
    rw [Primary.onto, allAt_cons] at h
    rw [Primary.tree, Expr.Located]
    exact ⟨trivial, h.2⟩
  | .this w, _, h | .name w, _, h => by
    rw [Primary.onto, allAt_cons] at h
    rw [Primary.tree, Expr.Located]
    exact ⟨.some h.1, h.2⟩
  | .group left inner right, _, h => by
    rw [Primary.onto, allAt_cons] at h
    obtain ⟨inside, behind⟩ := inner.located h.2
    rw [Primary.tree]
    exact ⟨inside, (allAt_cons.1 behind).2⟩
  | .memberCall receiver dot name left arguments right, _, h
  | .thisCall receiver dot name left arguments right, _, h => by
    simp only [Primary.onto, allAt_cons] at h
    obtain ⟨place, -, -, -, h⟩ := h
    obtain ⟨inside, behind⟩ := arguments.located h
    rw [Primary.tree, Expr.Located, Expr.Located]
    exact ⟨⟨.some place, trivial, .some place, inside⟩, (allAt_cons.1 behind).2⟩
  | .call name left arguments right, _, h => by
    simp only [Primary.onto, allAt_cons] at h
    obtain ⟨place, -, h⟩ := h
    obtain ⟨inside, behind⟩ := arguments.located h
    rw [Primary.tree, Expr.Located]
    exact ⟨⟨.some place, inside⟩, (allAt_cons.1 behind).2⟩

theorem Arguments.located : ∀ (a : Arguments) {ts : List Token}, AllAt P (a.onto ts) →
    allLocated P a.trees ∧ AllAt P ts
  | .none, _, h => ⟨trivial, h⟩
  | .some first more, _, h => by
    rw [Arguments.onto] at h
    obtain ⟨one, h⟩ := first.located h
    obtain ⟨others, h⟩ := more.located h
    rw [Arguments.trees, allLocated]
    exact ⟨⟨one, others⟩, h⟩

theorem MoreArguments.located : ∀ (a : MoreArguments) {ts : List Token}, AllAt P (a.onto ts) →
    allLocated P a.trees ∧ AllAt P ts
  | .nil, _, h => ⟨trivial, h⟩
  | .cons comma argument more, _, h => by
    rw [MoreArguments.onto, allAt_cons] at h
    obtain ⟨one, behind⟩ := argument.located h.2
    obtain ⟨others, behind⟩ := more.located behind
    rw [MoreArguments.trees, allLocated]
    exact ⟨⟨one, others⟩, behind⟩

end

/-! ### Statements -/

theorem MoreNames.located : ∀ (more : MoreNames) {ts : List Token}, AllAt P (more.onto ts) →
    AllAt P ts
  | [], _, h => h
  | (_, _) :: more, _, h => by
    simp only [MoreNames.onto, allAt_cons] at h
    exact MoreNames.located more h.2.2

theorem Variables.located {v : Variables} (h : AllAt P (v.onto ts)) : AllAt P ts := by
  simp only [Variables.onto, allAt_cons] at h
  exact (allAt_cons.1 (v.more.located h.2.2)).2

mutual

theorem Statement.located : ∀ (s : Statement) {ts : List Token}, AllAt P (s.onto ts) →
    s.tree.Located P ∧ AllAt P ts
  | .declare word declared, _, h => by
    rw [Statement.onto, allAt_cons] at h
    rw [Statement.tree, Stmt.Located]
    exact ⟨.some h.1, Variables.located h.2⟩
  | .assign word name equal value stop, _, h => by
    simp only [Statement.onto, allAt_cons] at h
    obtain ⟨place, -, -, h⟩ := h
    obtain ⟨inside, behind⟩ := value.located h
    rw [Statement.tree, Stmt.Located]
    exact ⟨⟨.some place, inside⟩, (allAt_cons.1 behind).2⟩
  | .assignElement word name left subscript right equal value stop, _, h => by
    simp only [Statement.onto, allAt_cons] at h
    obtain ⟨place, -, -, h⟩ := h
    obtain ⟨element, behind⟩ := subscript.located h
    obtain ⟨inside, behind⟩ := value.located (allAt_cons.1 (allAt_cons.1 behind).2).2
    rw [Statement.tree, Stmt.Located]
    exact ⟨⟨.some place, element, inside⟩, (allAt_cons.1 behind).2⟩
  | .perform word call stop, _, h => by
    rw [Statement.onto, allAt_cons] at h
    obtain ⟨inside, behind⟩ := call.located h.2
    rw [Statement.tree, Stmt.Located]
    exact ⟨⟨.some h.1, inside⟩, (allAt_cons.1 behind).2⟩
  | .ifThen word left condition right body, _, h => by
    simp only [Statement.onto, allAt_cons] at h
    obtain ⟨inside, behind⟩ := condition.located h.2.2
    obtain ⟨block, behind⟩ := body.located (allAt_cons.1 behind).2
    rw [Statement.tree, Stmt.Located]
    exact ⟨⟨inside, block⟩, behind⟩
  | .ifElse word left condition right body otherwise alternative, _, h => by
    simp only [Statement.onto, allAt_cons] at h
    obtain ⟨inside, behind⟩ := condition.located h.2.2
    obtain ⟨block, behind⟩ := body.located (allAt_cons.1 behind).2
    obtain ⟨other, behind⟩ := alternative.located (allAt_cons.1 behind).2
    rw [Statement.tree, Stmt.Located]
    exact ⟨⟨inside, block, other⟩, behind⟩
  | .repeatWhile word left condition right body, _, h => by
    simp only [Statement.onto, allAt_cons] at h
    obtain ⟨inside, behind⟩ := condition.located h.2.2
    obtain ⟨block, behind⟩ := body.located (allAt_cons.1 behind).2
    rw [Statement.tree, Stmt.Located]
    exact ⟨⟨inside, block⟩, behind⟩
  | .giveBack word stop, _, h => by
    simp only [Statement.onto, allAt_cons] at h
    rw [Statement.tree, Stmt.Located]
    exact ⟨.some h.1, h.2.2⟩
  | .giveBackValue word value stop, _, h => by
    rw [Statement.onto, allAt_cons] at h
    obtain ⟨inside, behind⟩ := value.located h.2
    rw [Statement.tree, Stmt.Located]
    exact ⟨⟨.some h.1, inside⟩, (allAt_cons.1 behind).2⟩

theorem Block.located : ∀ (b : Block) {ts : List Token}, AllAt P (b.onto ts) →
    blockLocated P b.trees ∧ AllAt P ts
  | .mk left statements right, _, h => by
    rw [Block.onto, allAt_cons] at h
    obtain ⟨inside, behind⟩ := statements.located h.2
    rw [Block.trees]
    exact ⟨inside, (allAt_cons.1 behind).2⟩

theorem Statements.located : ∀ (ss : Statements) {ts : List Token}, AllAt P (ss.onto ts) →
    blockLocated P ss.trees ∧ AllAt P ts
  | .nil, _, h => ⟨trivial, h⟩
  | .cons first rest, _, h => by
    rw [Statements.onto] at h
    obtain ⟨one, h⟩ := first.located h
    obtain ⟨others, h⟩ := rest.located h
    rw [Statements.trees, blockLocated]
    exact ⟨⟨one, others⟩, h⟩

end

/-! ### Classes -/

theorem ParameterPart.located {p : ParameterPart} (h : AllAt P (p.onto ts)) :
    Recorded P p.tree.position ∧ AllAt P ts := by
  simp only [ParameterPart.onto, allAt_cons] at h
  exact ⟨.some h.2.1, h.2.2⟩

theorem MoreParameters.located : ∀ (more : MoreParameters) {ts : List Token},
    AllAt P (more.onto ts) →
      (∀ p ∈ more.map (·.2.tree), Recorded P p.position) ∧ AllAt P ts
  | [], _, h => ⟨by simp, h⟩
  | (_, p) :: more, _, h => by
    rw [MoreParameters.onto, allAt_cons] at h
    obtain ⟨place, behind⟩ := p.located h.2
    obtain ⟨others, behind⟩ := MoreParameters.located more behind
    exact ⟨List.forall_mem_cons.2 ⟨place, others⟩, behind⟩

theorem Parameters.located {ps : Parameters} (h : AllAt P (ps.onto ts)) :
    (∀ p ∈ ps.trees, Recorded P p.position) ∧ AllAt P ts := by
  cases ps with
  | none => exact ⟨by simp [Parameters.trees], h⟩
  | some first more =>
    obtain ⟨place, behind⟩ := first.located h
    obtain ⟨others, behind⟩ := more.located behind
    exact ⟨List.forall_mem_cons.2 ⟨place, others⟩, behind⟩

theorem Signature.located {s : Signature} {place : Position} (stands : P place)
    (h : AllAt P (s.onto ts)) (kind : RoutineKind) (type : JackType) :
    (s.tree kind type place).Located P ∧ AllAt P ts := by
  simp only [Signature.onto, allAt_cons] at h
  obtain ⟨parameters, behind⟩ := Parameters.located h.2.2
  obtain ⟨body, behind⟩ := s.body.located (allAt_cons.1 behind).2
  exact ⟨⟨.some stands, parameters, body⟩, behind⟩

theorem MemberPart.located {m : MemberPart} (h : AllAt P (m.onto ts)) :
    m.tree.Located P ∧ AllAt P ts := by
  cases m with
  | shared word declared | perObject word declared =>
    rw [MemberPart.onto, allAt_cons] at h
    exact ⟨.some h.1, Variables.located h.2⟩
  | function word type signature | method word type signature
  | constructor word type signature =>
    simp only [MemberPart.onto, allAt_cons] at h
    exact Signature.located h.1 h.2.2 _ _

theorem membersOnto_located : ∀ (ms : List MemberPart) {ts : List Token},
    AllAt P (membersOnto ms ts) → ∀ m ∈ ms.map MemberPart.tree, m.Located P
  | [], _, _ => by simp
  | m :: ms, _, h => by
    obtain ⟨one, behind⟩ := m.located h
    exact List.forall_mem_cons.2 ⟨one, membersOnto_located ms behind⟩

/-- **The tree of a derivation has only places of its tokens, short strings, small numbers, and
methods called on names.** -/
theorem Class.located {c : Class} (h : AllAt P c.tokens) : c.tree.Located P := by
  simp only [Class.tokens, allAt_cons] at h
  exact ⟨.some h.1, membersOnto_located c.members h.2.2.2⟩

end Grammar

end JackCompiler
