import JackCompiler.Proofs.Grammar.Completeness
/-!
# The grammar is unambiguous

Two derivations with the same tokens are the same. The first token of a part tells its constructor,
the second tells names and calls apart, and where lists and operands end is told by the token
behind: it cannot go on with what ends in front of it.
-/

namespace JackCompiler.Grammar

variable {ts ts' : List Token} {t t' : Token}

/-- Leaves in the same place are of one kind. -/
theorem kind_agrees {k k' : TokenKind} {a : Terminal k} {b : Terminal k'}
    (h : a.token :: ts = b.token :: ts') : k = k' := by
  rw [← a.kind_eq, ← b.kind_eq, (List.cons.inj h).1]

/-- Leaves of one kind in the same place are the same. -/
theorem leaf_agrees {k : TokenKind} {a b : Terminal k} (h : a.token :: ts = b.token :: ts') :
    a = b ∧ ts = ts' :=
  ⟨Terminal.ext (List.cons.inj h).1, (List.cons.inj h).2⟩

/-- The same tokens have a first token of the same kind. -/
theorem first_agrees {l l' : List Token} {k k' : TokenKind}
    (first : l.head?.map Token.kind = some k) (first' : l'.head?.map Token.kind = some k')
    (h : l = l') : k = k' := by
  rw [h, first'] at first
  exact (Option.some.inj first).symm

/-- Tokens that open with one of some kinds do not open with a leaf of another kind. -/
theorem ne_leaf_of_opens {opens : TokenKind → Bool} {l : List Token} {k : TokenKind}
    {a : Terminal k} (first : ∃ t us, l = t :: us ∧ opens t.kind) (other : opens k = false) :
    l ≠ a.token :: ts := by
  rintro rfl
  obtain ⟨t, us, same, goes⟩ := first
  rw [← (List.cons.inj same).1, a.kind_eq, other] at goes
  cases goes

theorem binarySymbol_injective {op op' : BinaryOp} (h : binarySymbol op = binarySymbol op') :
    op = op' := by
  cases op <;> cases op' <;> first | rfl | cases h

theorem binarySymbol_extends (op : BinaryOp) :
    (TokenKind.symbol (binarySymbol op)).extendsExpression := by
  cases op <;> rfl

theorem unarySymbol_injective {op op' : UnaryOp} (h : unarySymbol op = unarySymbol op') :
    op = op' := by
  cases op <;> cases op' <;> first | rfl | cases h

/-- The kind of the first token of a primary. -/
def Primary.firstKind : Primary → TokenKind
  | .number _ => .integerConstant
  | .text _ => .stringConstant
  | .true_ _ => .keyword .true_
  | .false_ _ => .keyword .false_
  | .null _ => .keyword .null
  | .this _ | .thisCall .. => .keyword .this
  | .group .. => .symbol .openParen
  | .memberCall .. | .call .. | .name _ => .identifier

theorem Primary.onto_firstKind (p : Primary) (ts : List Token) :
    (p.onto ts).head?.map Token.kind = some p.firstKind := by
  cases p with
  | number n => exact congrArg some n.kind_eq
  | text s => exact congrArg some s.kind_eq
  | true_ w | false_ w | null w | this w | thisCall w => exact congrArg some w.kind_eq
  | group left => exact congrArg some left.kind_eq
  | memberCall name | call name | name name => exact congrArg some name.kind_eq

theorem Primary.firstKind_agrees {p p' : Primary} (h : p.onto ts = p'.onto ts') :
    p.firstKind = p'.firstKind :=
  first_agrees (p.onto_firstKind ts) (p'.onto_firstKind ts') h

/-- A token that does not go on with a part is no leaf that does. -/
theorem leaf_extends {extends_ : TokenKind → Bool} {k : TokenKind} {a : Terminal k}
    (stops : extends_ t.kind = false) (goes : extends_ k = true) :
    t :: ts ≠ a.token :: ts' := by
  intro h
  rw [(List.cons.inj h).1, a.kind_eq, goes] at stops
  cases stops

/-- An operator in front of an operand opens no primary. -/
theorem Postfix.onto_ne_sign (p : Postfix) {op : UnaryOp} {sign : Mark (unarySymbol op)} :
    p.onto ts ≠ sign.token :: ts' :=
  ne_leaf_of_opens (p.onto_eq_cons ts) (by cases op <;> rfl)

/-- A symbol that closes an expression opens none. -/
theorem Expression.onto_ne_mark (e : Expression) {k : Symbol} (a : Mark k)
    (h : (TokenKind.symbol k).opensOperand = false) : e.onto ts ≠ a.token :: ts' :=
  ne_leaf_of_opens (e.onto_eq_cons ts) h

mutual

theorem Expression.onto_injective : ∀ (e e' : Expression) {t t' : Token} {ts ts' : List Token},
    t.kind.extendsExpression = false → t'.kind.extendsExpression = false →
    e.onto (t :: ts) = e'.onto (t' :: ts') → e = e' ∧ t :: ts = t' :: ts'
  | .mk u ops, .mk u' ops', t, t', ts, ts', stops, stops', h => by
    obtain ⟨a, as, onto, ends⟩ := ops.onto_eq_cons stops ts
    obtain ⟨a', as', onto', ends'⟩ := ops'.onto_eq_cons stops' ts'
    rw [Expression.onto, Expression.onto, onto, onto'] at h
    obtain ⟨rfl, h₁⟩ := Unary.onto_injective u u' ends ends' h
    rw [← onto, ← onto'] at h₁
    obtain ⟨rfl, h₂⟩ := Operations.onto_injective ops ops' stops stops' h₁
    exact ⟨rfl, h₂⟩

theorem Operations.onto_injective : ∀ (ops ops' : Operations) {t t' : Token}
    {ts ts' : List Token}, t.kind.extendsExpression = false → t'.kind.extendsExpression = false →
    ops.onto (t :: ts) = ops'.onto (t' :: ts') → ops = ops' ∧ t :: ts = t' :: ts'
  | .nil, .nil, _, _, _, _, _, _, h => ⟨rfl, h⟩
  | .nil, .cons op _ _ _, _, _, _, _, stops, _, h =>
    (leaf_extends stops (binarySymbol_extends op) h).elim
  | .cons op _ _ _, .nil, _, _, _, _, _, stops, h =>
    (leaf_extends stops (binarySymbol_extends op) h.symm).elim
  | .cons op sign u ops, .cons op' sign' u' ops', t, t', ts, ts', stops, stops', h => by
    obtain ⟨a, as, onto, ends⟩ := ops.onto_eq_cons stops ts
    obtain ⟨a', as', onto', ends'⟩ := ops'.onto_eq_cons stops' ts'
    rw [Operations.onto, Operations.onto, onto, onto'] at h
    obtain rfl := binarySymbol_injective (TokenKind.symbol.inj (kind_agrees h))
    obtain ⟨rfl, h₁⟩ := leaf_agrees h
    obtain ⟨rfl, h₂⟩ := Unary.onto_injective u u' ends ends' h₁
    rw [← onto, ← onto'] at h₂
    obtain ⟨rfl, h₃⟩ := Operations.onto_injective ops ops' stops stops' h₂
    exact ⟨rfl, h₃⟩

theorem Unary.onto_injective : ∀ (u u' : Unary) {t t' : Token} {ts ts' : List Token},
    t.kind.extendsPostfix = false → t'.kind.extendsPostfix = false →
    u.onto (t :: ts) = u'.onto (t' :: ts') → u = u' ∧ t :: ts = t' :: ts'
  | .sign op sign u, .sign op' sign' u', t, t', ts, ts', stops, stops', h => by
    obtain rfl := unarySymbol_injective (TokenKind.symbol.inj (kind_agrees h))
    obtain ⟨rfl, h₁⟩ := leaf_agrees h
    obtain ⟨rfl, h₂⟩ := Unary.onto_injective u u' stops stops' h₁
    exact ⟨rfl, h₂⟩
  | .sign _ _ _, .plain p, _, _, _, _, _, _, h => (p.onto_ne_sign h.symm).elim
  | .plain p, .sign _ _ _, _, _, _, _, _, _, h => (p.onto_ne_sign h).elim
  | .plain p, .plain p', t, t', ts, ts', stops, stops', h => by
    obtain ⟨rfl, h₁⟩ := Postfix.onto_injective p p' stops stops' h
    exact ⟨rfl, h₁⟩

theorem Postfix.onto_injective : ∀ (p p' : Postfix) {t t' : Token} {ts ts' : List Token},
    t.kind.extendsPostfix = false → t'.kind.extendsPostfix = false →
    p.onto (t :: ts) = p'.onto (t' :: ts') → p = p' ∧ t :: ts = t' :: ts'
  | .plain p, .plain p', t, t', ts, ts', stops, stops', h => by
    obtain ⟨rfl, h₁⟩ := Primary.onto_injective p p' (TokenKind.extendsPrimary_of_postfix stops)
      (TokenKind.extendsPrimary_of_postfix stops') h
    exact ⟨rfl, h₁⟩
  | .plain p, .index p' left' e' right', t, t', ts, ts', stops, _, h => by
    obtain ⟨-, h₁⟩ := Primary.onto_injective p p' (TokenKind.extendsPrimary_of_postfix stops)
      (by rw [left'.kind_eq]; rfl) h
    exact (leaf_extends stops rfl h₁).elim
  | .index p left e right, .plain p', t, t', ts, ts', _, stops, h => by
    obtain ⟨-, h₁⟩ := Primary.onto_injective p p' (by rw [left.kind_eq]; rfl)
      (TokenKind.extendsPrimary_of_postfix stops) h
    exact (leaf_extends stops rfl h₁.symm).elim
  | .index p left e right, .index p' left' e' right', t, t', ts, ts', _, _, h => by
    obtain ⟨rfl, h₁⟩ := Primary.onto_injective p p' (by rw [left.kind_eq]; rfl)
      (by rw [left'.kind_eq]; rfl) h
    obtain ⟨rfl, h₂⟩ := leaf_agrees h₁
    obtain ⟨rfl, h₃⟩ := Expression.onto_injective e e' (by rw [right.kind_eq]; rfl)
      (by rw [right'.kind_eq]; rfl) h₂
    obtain ⟨rfl, h₄⟩ := leaf_agrees h₃
    exact ⟨rfl, h₄⟩

theorem Primary.onto_injective : ∀ (p p' : Primary) {t t' : Token} {ts ts' : List Token},
    t.kind.extendsPrimary = false → t'.kind.extendsPrimary = false →
    p.onto (t :: ts) = p'.onto (t' :: ts') → p = p' ∧ t :: ts = t' :: ts'
  | .number n, p', t, t', ts, ts', _, _, h => by
    have same := Primary.firstKind_agrees h
    cases p' <;> cases same
    next n' => exact ⟨congrArg _ (Number.ext (List.cons.inj h).1), (List.cons.inj h).2⟩
  | .text s, p', t, t', ts, ts', _, _, h => by
    have same := Primary.firstKind_agrees h
    cases p' <;> cases same
    next s' => exact ⟨congrArg _ (Text.ext (List.cons.inj h).1), (List.cons.inj h).2⟩
  | .true_ w, p', t, t', ts, ts', _, _, h => by
    have same := Primary.firstKind_agrees h
    cases p' <;> cases same
    next w' => exact ⟨congrArg _ (leaf_agrees h).1, (leaf_agrees h).2⟩
  | .false_ w, p', t, t', ts, ts', _, _, h => by
    have same := Primary.firstKind_agrees h
    cases p' <;> cases same
    next w' => exact ⟨congrArg _ (leaf_agrees h).1, (leaf_agrees h).2⟩
  | .null w, p', t, t', ts, ts', _, _, h => by
    have same := Primary.firstKind_agrees h
    cases p' <;> cases same
    next w' => exact ⟨congrArg _ (leaf_agrees h).1, (leaf_agrees h).2⟩
  | .this w, p', t, t', ts, ts', stops, _, h => by
    have same := Primary.firstKind_agrees h
    cases p' <;> cases same
    case this w' => exact ⟨congrArg _ (leaf_agrees h).1, (leaf_agrees h).2⟩
    case thisCall w' dot name left arguments right =>
      exact (leaf_extends stops rfl (leaf_agrees h).2).elim
  | .group left e right, p', t, t', ts, ts', _, _, h => by
    have same := Primary.firstKind_agrees h
    cases p' <;> cases same
    next left' e' right' =>
    obtain ⟨rfl, h₁⟩ := leaf_agrees h
    obtain ⟨rfl, h₂⟩ := Expression.onto_injective e e' (by rw [right.kind_eq]; rfl)
      (by rw [right'.kind_eq]; rfl) h₁
    obtain ⟨rfl, h₃⟩ := leaf_agrees h₂
    exact ⟨rfl, h₃⟩
  | .memberCall receiver dot name left arguments right, p', t, t', ts, ts', _, stops, h => by
    have same := Primary.firstKind_agrees h
    cases p' <;> cases same
    case memberCall receiver' dot' name' left' arguments' right' =>
      obtain ⟨rfl, h₁⟩ := leaf_agrees h
      obtain ⟨rfl, h₂⟩ := leaf_agrees h₁
      obtain ⟨rfl, h₃⟩ := leaf_agrees h₂
      obtain ⟨rfl, h₄⟩ := leaf_agrees h₃
      obtain ⟨rfl, h₅⟩ := Arguments.onto_injective arguments arguments' right right' h₄
      obtain ⟨rfl, h₆⟩ := leaf_agrees h₅
      exact ⟨rfl, h₆⟩
    case call name' left' arguments' right' => cases kind_agrees (leaf_agrees h).2
    case name name' => exact (leaf_extends stops rfl (leaf_agrees h).2.symm).elim
  | .thisCall receiver dot name left arguments right, p', t, t', ts, ts', _, stops, h => by
    have same := Primary.firstKind_agrees h
    cases p' <;> cases same
    case this w' => exact (leaf_extends stops rfl (leaf_agrees h).2.symm).elim
    case thisCall receiver' dot' name' left' arguments' right' =>
      obtain ⟨rfl, h₁⟩ := leaf_agrees h
      obtain ⟨rfl, h₂⟩ := leaf_agrees h₁
      obtain ⟨rfl, h₃⟩ := leaf_agrees h₂
      obtain ⟨rfl, h₄⟩ := leaf_agrees h₃
      obtain ⟨rfl, h₅⟩ := Arguments.onto_injective arguments arguments' right right' h₄
      obtain ⟨rfl, h₆⟩ := leaf_agrees h₅
      exact ⟨rfl, h₆⟩
  | .call name left arguments right, p', t, t', ts, ts', _, stops, h => by
    have same := Primary.firstKind_agrees h
    cases p' <;> cases same
    case memberCall receiver' dot' name' left' arguments' right' =>
      cases kind_agrees (leaf_agrees h).2
    case call name' left' arguments' right' =>
      obtain ⟨rfl, h₁⟩ := leaf_agrees h
      obtain ⟨rfl, h₂⟩ := leaf_agrees h₁
      obtain ⟨rfl, h₃⟩ := Arguments.onto_injective arguments arguments' right right' h₂
      obtain ⟨rfl, h₄⟩ := leaf_agrees h₃
      exact ⟨rfl, h₄⟩
    case name name' => exact (leaf_extends stops rfl (leaf_agrees h).2.symm).elim
  | .name name, p', t, t', ts, ts', stops, _, h => by
    have same := Primary.firstKind_agrees h
    cases p' <;> cases same
    case name name' => exact ⟨congrArg _ (leaf_agrees h).1, (leaf_agrees h).2⟩
    case memberCall | call => exact (leaf_extends stops rfl (leaf_agrees h).2).elim

theorem Arguments.onto_injective : ∀ (a a' : Arguments) (right right' : Mark .closeParen)
    {ts ts' : List Token}, a.onto (right.token :: ts) = a'.onto (right'.token :: ts') →
    a = a' ∧ right.token :: ts = right'.token :: ts'
  | .none, .none, _, _, _, _, h => ⟨rfl, h⟩
  | .none, .some e more, right, _, _, _, h => (e.onto_ne_mark right rfl h.symm).elim
  | .some e more, .none, _, right, _, _, h => (e.onto_ne_mark right rfl h).elim
  | .some e more, .some e' more', right, right', ts, ts', h => by
    obtain ⟨a, as, onto, ends⟩ := more.onto_eq_cons right ts
    obtain ⟨a', as', onto', ends'⟩ := more'.onto_eq_cons right' ts'
    rw [Arguments.onto, Arguments.onto, onto, onto'] at h
    obtain ⟨rfl, h₁⟩ := Expression.onto_injective e e' ends ends' h
    rw [← onto, ← onto'] at h₁
    obtain ⟨rfl, h₂⟩ := MoreArguments.onto_injective more more' right right' h₁
    exact ⟨rfl, h₂⟩

theorem MoreArguments.onto_injective : ∀ (a a' : MoreArguments) (right right' : Mark .closeParen)
    {ts ts' : List Token}, a.onto (right.token :: ts) = a'.onto (right'.token :: ts') →
    a = a' ∧ right.token :: ts = right'.token :: ts'
  | .nil, .nil, _, _, _, _, h => ⟨rfl, h⟩
  | .nil, .cons _ _ _, _, _, _, _, h => nomatch kind_agrees h
  | .cons _ _ _, .nil, _, _, _, _, h => nomatch kind_agrees h
  | .cons comma e more, .cons comma' e' more', right, right', ts, ts', h => by
    obtain ⟨a, as, onto, ends⟩ := more.onto_eq_cons right ts
    obtain ⟨a', as', onto', ends'⟩ := more'.onto_eq_cons right' ts'
    rw [MoreArguments.onto, MoreArguments.onto, onto, onto'] at h
    obtain ⟨rfl, h₁⟩ := leaf_agrees h
    obtain ⟨rfl, h₂⟩ := Expression.onto_injective e e' ends ends' h₁
    rw [← onto, ← onto'] at h₂
    obtain ⟨rfl, h₃⟩ := MoreArguments.onto_injective more more' right right' h₂
    exact ⟨rfl, h₃⟩

end

/-- Expressions with the same tokens up to a symbol that closes them are the same. -/
theorem Expression.onto_agrees {k : Symbol} {e e' : Expression} {stop stop' : Mark k}
    (stops : (TokenKind.symbol k).extendsExpression = false)
    (h : e.onto (stop.token :: ts) = e'.onto (stop'.token :: ts')) :
    e = e' ∧ stop = stop' ∧ ts = ts' := by
  obtain ⟨rfl, h₁⟩ := Expression.onto_injective e e' (by rw [stop.kind_eq]; exact stops)
    (by rw [stop'.kind_eq]; exact stops) h
  exact ⟨rfl, leaf_agrees h₁⟩

/-! ### Declarations -/

/-- The kind of the token of a type. -/
def VariableType.kind : VariableType → TokenKind
  | .int _ => .keyword .int
  | .char _ => .keyword .char
  | .boolean _ => .keyword .boolean
  | .named _ => .identifier

theorem VariableType.token_kind (type : VariableType) : type.token.kind = type.kind := by
  cases type with
  | int w | char w | boolean w => exact w.kind_eq
  | named n => exact n.kind_eq

theorem VariableType.token_injective {type type' : VariableType} (h : type.token = type'.token) :
    type = type' := by
  have same : type.kind = type'.kind := by rw [← token_kind, ← token_kind, h]
  cases type <;> cases type' <;> cases same <;> exact congrArg _ (Terminal.ext h)

theorem ResultType.token_injective {type type' : ResultType} (h : type.token = type'.token) :
    type = type' := by
  cases type with
  | value type =>
    cases type' with
    | value type' => exact congrArg _ (VariableType.token_injective h)
    | void w =>
      have same : type.kind = .keyword .void := by
        rw [← type.token_kind, ← w.kind_eq]
        exact congrArg Token.kind h
      cases type <;> cases same
  | void w =>
    cases type' with
    | value type' =>
      have same : type'.kind = .keyword .void := by
        rw [← type'.token_kind, ← w.kind_eq]
        exact congrArg Token.kind h.symm
      cases type' <;> cases same
    | void w' => exact congrArg _ (Terminal.ext h)

theorem MoreNames.onto_injective : ∀ (more more' : MoreNames) {stop stop' : Mark .semicolon}
    {ts ts' : List Token}, more.onto (stop.token :: ts) = more'.onto (stop'.token :: ts') →
    more = more' ∧ stop = stop' ∧ ts = ts'
  | [], [], _, _, _, _, h => ⟨rfl, leaf_agrees h⟩
  | [], (_, _) :: _, _, _, _, _, h => nomatch kind_agrees h
  | (_, _) :: _, [], _, _, _, _, h => nomatch kind_agrees h
  | (comma, name) :: more, (comma', name') :: more', stop, stop', ts, ts', h => by
    obtain ⟨rfl, h₁⟩ := leaf_agrees h
    obtain ⟨rfl, h₂⟩ := leaf_agrees h₁
    obtain ⟨rfl, h₃⟩ := MoreNames.onto_injective more more' h₂
    exact ⟨rfl, h₃⟩

theorem Variables.onto_injective {v v' : Variables} (h : v.onto ts = v'.onto ts') :
    v = v' ∧ ts = ts' := by
  obtain ⟨type, first, more, stop⟩ := v
  obtain ⟨type', first', more', stop'⟩ := v'
  obtain ⟨token, h₁⟩ := List.cons.inj h
  obtain rfl := VariableType.token_injective token
  obtain ⟨rfl, h₂⟩ := leaf_agrees h₁
  obtain ⟨rfl, rfl, h₃⟩ := MoreNames.onto_injective more more' h₂
  exact ⟨rfl, h₃⟩

/-! ### Statements -/

/-- The kind of the first token of a statement. -/
def Statement.firstKind : Statement → TokenKind
  | .declare .. => .keyword .var
  | .assign .. | .assignElement .. => .keyword .let_
  | .perform .. => .keyword .do_
  | .ifThen .. | .ifElse .. => .keyword .if_
  | .repeatWhile .. => .keyword .while_
  | .giveBack .. | .giveBackValue .. => .keyword .return_

theorem Statement.onto_firstKind (s : Statement) (ts : List Token) :
    (s.onto ts).head?.map Token.kind = some s.firstKind := by
  cases s <;> exact congrArg some (Terminal.kind_eq _)

theorem Statement.firstKind_agrees {s s' : Statement} (h : s.onto ts = s'.onto ts') :
    s.firstKind = s'.firstKind :=
  first_agrees (s.onto_firstKind ts) (s'.onto_firstKind ts') h

/-- A brace that closes opens no statement. -/
theorem Statement.onto_ne_close (s : Statement) (right : Mark .closeBrace) :
    s.onto ts ≠ right.token :: ts' :=
  ne_leaf_of_opens (s.onto_eq_cons ts) rfl

mutual

theorem Statement.onto_injective : ∀ (s s' : Statement) {t t' : Token} {ts ts' : List Token},
    t.kind ≠ .keyword .else_ → t'.kind ≠ .keyword .else_ →
    s.onto (t :: ts) = s'.onto (t' :: ts') → s = s' ∧ t :: ts = t' :: ts'
  | .declare word v, s', t, t', ts, ts', _, _, h => by
    have same := Statement.firstKind_agrees h
    cases s' <;> cases same
    next word' v' =>
    obtain ⟨rfl, h₁⟩ := leaf_agrees h
    obtain ⟨rfl, h₂⟩ := Variables.onto_injective h₁
    exact ⟨rfl, h₂⟩
  | .assign word name equal value stop, s', t, t', ts, ts', _, _, h => by
    have same := Statement.firstKind_agrees h
    cases s' <;> cases same
    case assign word' name' equal' value' stop' =>
      obtain ⟨rfl, h₁⟩ := leaf_agrees h
      obtain ⟨rfl, h₂⟩ := leaf_agrees h₁
      obtain ⟨rfl, h₃⟩ := leaf_agrees h₂
      obtain ⟨rfl, rfl, h₄⟩ := Expression.onto_agrees rfl h₃
      exact ⟨rfl, h₄⟩
    case assignElement => exact nomatch kind_agrees (leaf_agrees (leaf_agrees h).2).2
  | .assignElement word name left subscript right equal value stop, s', t, t', ts, ts', _, _, h => by
    have same := Statement.firstKind_agrees h
    cases s' <;> cases same
    case assign => exact nomatch kind_agrees (leaf_agrees (leaf_agrees h).2).2
    case assignElement word' name' left' subscript' right' equal' value' stop' =>
      obtain ⟨rfl, h₁⟩ := leaf_agrees h
      obtain ⟨rfl, h₂⟩ := leaf_agrees h₁
      obtain ⟨rfl, h₃⟩ := leaf_agrees h₂
      obtain ⟨rfl, rfl, h₄⟩ := Expression.onto_agrees rfl h₃
      obtain ⟨rfl, h₅⟩ := leaf_agrees h₄
      obtain ⟨rfl, rfl, h₆⟩ := Expression.onto_agrees rfl h₅
      exact ⟨rfl, h₆⟩
  | .perform word call stop, s', t, t', ts, ts', _, _, h => by
    have same := Statement.firstKind_agrees h
    cases s' <;> cases same
    next word' call' stop' =>
    obtain ⟨rfl, h₁⟩ := leaf_agrees h
    obtain ⟨rfl, rfl, h₂⟩ := Expression.onto_agrees rfl h₁
    exact ⟨rfl, h₂⟩
  | .ifThen word left condition right body, s', t, t', ts, ts', stops, _, h => by
    have same := Statement.firstKind_agrees h
    cases s' <;> cases same
    case ifThen word' left' condition' right' body' =>
      obtain ⟨rfl, h₁⟩ := leaf_agrees h
      obtain ⟨rfl, h₂⟩ := leaf_agrees h₁
      obtain ⟨rfl, rfl, h₃⟩ := Expression.onto_agrees rfl h₂
      obtain ⟨rfl, h₄⟩ := Block.onto_injective body body' h₃
      exact ⟨rfl, h₄⟩
    case ifElse word' left' condition' right' body' otherwise alternative =>
      obtain ⟨-, -, h₁⟩ := Expression.onto_agrees rfl (leaf_agrees (leaf_agrees h).2).2
      obtain ⟨-, h₂⟩ := Block.onto_injective body body' h₁
      rw [(List.cons.inj h₂).1, otherwise.kind_eq] at stops
      exact absurd rfl stops
  | .ifElse word left condition right body otherwise alternative, s', t, t', ts, ts', _, stops,
      h => by
    have same := Statement.firstKind_agrees h
    cases s' <;> cases same
    case ifThen word' left' condition' right' body' =>
      obtain ⟨-, -, h₁⟩ := Expression.onto_agrees rfl (leaf_agrees (leaf_agrees h).2).2
      obtain ⟨-, h₂⟩ := Block.onto_injective body body' h₁
      rw [← (List.cons.inj h₂).1, otherwise.kind_eq] at stops
      exact absurd rfl stops
    case ifElse word' left' condition' right' body' otherwise' alternative' =>
      obtain ⟨rfl, h₁⟩ := leaf_agrees h
      obtain ⟨rfl, h₂⟩ := leaf_agrees h₁
      obtain ⟨rfl, rfl, h₃⟩ := Expression.onto_agrees rfl h₂
      obtain ⟨rfl, h₄⟩ := Block.onto_injective body body' h₃
      obtain ⟨rfl, h₅⟩ := leaf_agrees h₄
      obtain ⟨rfl, h₆⟩ := Block.onto_injective alternative alternative' h₅
      exact ⟨rfl, h₆⟩
  | .repeatWhile word left condition right body, s', t, t', ts, ts', _, _, h => by
    have same := Statement.firstKind_agrees h
    cases s' <;> cases same
    next word' left' condition' right' body' =>
    obtain ⟨rfl, h₁⟩ := leaf_agrees h
    obtain ⟨rfl, h₂⟩ := leaf_agrees h₁
    obtain ⟨rfl, rfl, h₃⟩ := Expression.onto_agrees rfl h₂
    obtain ⟨rfl, h₄⟩ := Block.onto_injective body body' h₃
    exact ⟨rfl, h₄⟩
  | .giveBack word stop, s', t, t', ts, ts', _, _, h => by
    have same := Statement.firstKind_agrees h
    cases s' <;> cases same
    case giveBack word' stop' =>
      obtain ⟨rfl, h₁⟩ := leaf_agrees h
      obtain ⟨rfl, h₂⟩ := leaf_agrees h₁
      exact ⟨rfl, h₂⟩
    case giveBackValue word' value' stop' =>
      exact (value'.onto_ne_mark stop rfl (leaf_agrees h).2.symm).elim
  | .giveBackValue word value stop, s', t, t', ts, ts', _, _, h => by
    have same := Statement.firstKind_agrees h
    cases s' <;> cases same
    case giveBack word' stop' => exact (value.onto_ne_mark stop' rfl (leaf_agrees h).2).elim
    case giveBackValue word' value' stop' =>
      obtain ⟨rfl, h₁⟩ := leaf_agrees h
      obtain ⟨rfl, rfl, h₂⟩ := Expression.onto_agrees rfl h₁
      exact ⟨rfl, h₂⟩

theorem Block.onto_injective : ∀ (b b' : Block) {ts ts' : List Token},
    b.onto ts = b'.onto ts' → b = b' ∧ ts = ts'
  | .mk left ss right, .mk left' ss' right', ts, ts', h => by
    obtain ⟨rfl, h₁⟩ := leaf_agrees h
    obtain ⟨rfl, h₂⟩ := Statements.onto_injective ss ss' right right' h₁
    obtain ⟨rfl, h₃⟩ := leaf_agrees h₂
    exact ⟨rfl, h₃⟩

theorem Statements.onto_injective : ∀ (ss ss' : Statements) (right right' : Mark .closeBrace)
    {ts ts' : List Token}, ss.onto (right.token :: ts) = ss'.onto (right'.token :: ts') →
    ss = ss' ∧ right.token :: ts = right'.token :: ts'
  | .nil, .nil, _, _, _, _, h => ⟨rfl, h⟩
  | .nil, .cons first _, right, _, _, _, h => (first.onto_ne_close right h.symm).elim
  | .cons first _, .nil, _, right, _, _, h => (first.onto_ne_close right h).elim
  | .cons first rest, .cons first' rest', right, right', ts, ts', h => by
    obtain ⟨a, as, onto, other⟩ := rest.onto_eq_cons (brace_stops right) ts
    obtain ⟨a', as', onto', other'⟩ := rest'.onto_eq_cons (brace_stops right') ts'
    rw [Statements.onto, Statements.onto, onto, onto'] at h
    obtain ⟨rfl, h₁⟩ := Statement.onto_injective first first' other other' h
    rw [← onto, ← onto'] at h₁
    obtain ⟨rfl, h₂⟩ := Statements.onto_injective rest rest' right right' h₁
    exact ⟨rfl, h₂⟩

end

/-! ### Classes -/

theorem ParameterPart.onto_injective {p p' : ParameterPart} (h : p.onto ts = p'.onto ts') :
    p = p' ∧ ts = ts' := by
  obtain ⟨type, name⟩ := p
  obtain ⟨type', name'⟩ := p'
  obtain ⟨token, h₁⟩ := List.cons.inj h
  obtain rfl := VariableType.token_injective token
  obtain ⟨rfl, h₂⟩ := leaf_agrees h₁
  exact ⟨rfl, h₂⟩

theorem MoreParameters.onto_injective : ∀ (more more' : MoreParameters)
    {right right' : Mark .closeParen} {ts ts' : List Token},
    more.onto (right.token :: ts) = more'.onto (right'.token :: ts') →
    more = more' ∧ right = right' ∧ ts = ts'
  | [], [], _, _, _, _, h => ⟨rfl, leaf_agrees h⟩
  | [], (_, _) :: _, _, _, _, _, h => nomatch kind_agrees h
  | (_, _) :: _, [], _, _, _, _, h => nomatch kind_agrees h
  | (comma, p) :: more, (comma', p') :: more', right, right', ts, ts', h => by
    obtain ⟨rfl, h₁⟩ := leaf_agrees h
    obtain ⟨rfl, h₂⟩ := ParameterPart.onto_injective h₁
    obtain ⟨rfl, h₃⟩ := MoreParameters.onto_injective more more' h₂
    exact ⟨rfl, h₃⟩

/-- A parenthesis that closes is no type. -/
theorem VariableType.token_ne_close (type : VariableType) (right : Mark .closeParen) :
    type.token ≠ right.token := by
  intro h
  have same : type.kind = .symbol .closeParen := by rw [← type.token_kind, h, right.kind_eq]
  cases type <;> cases same

theorem Parameters.onto_injective {ps ps' : Parameters} {right right' : Mark .closeParen}
    (h : ps.onto (right.token :: ts) = ps'.onto (right'.token :: ts')) :
    ps = ps' ∧ right = right' ∧ ts = ts' := by
  cases ps with
  | none =>
    cases ps' with
    | none => exact ⟨rfl, leaf_agrees h⟩
    | some p more => exact (p.type.token_ne_close right (List.cons.inj h).1.symm).elim
  | some p more =>
    cases ps' with
    | none => exact (p.type.token_ne_close right' (List.cons.inj h).1).elim
    | some p' more' =>
      obtain ⟨rfl, h₁⟩ := ParameterPart.onto_injective h
      obtain ⟨rfl, h₂⟩ := MoreParameters.onto_injective more more' h₁
      exact ⟨rfl, h₂⟩

theorem Signature.onto_injective {s s' : Signature} (h : s.onto ts = s'.onto ts') :
    s = s' ∧ ts = ts' := by
  obtain ⟨name, left, ps, right, body⟩ := s
  obtain ⟨name', left', ps', right', body'⟩ := s'
  obtain ⟨rfl, h₁⟩ := leaf_agrees h
  obtain ⟨rfl, h₂⟩ := leaf_agrees h₁
  obtain ⟨rfl, rfl, h₃⟩ := Parameters.onto_injective h₂
  obtain ⟨rfl, h₄⟩ := Block.onto_injective body body' h₃
  exact ⟨rfl, h₄⟩

/-- The kind of the first token of a member. -/
def MemberPart.firstKind : MemberPart → TokenKind
  | shared .. => .keyword .static
  | perObject .. => .keyword .field
  | function .. => .keyword .function
  | method .. => .keyword .method
  | constructor .. => .keyword .constructor

theorem MemberPart.onto_firstKind (m : MemberPart) (ts : List Token) :
    (m.onto ts).head?.map Token.kind = some m.firstKind := by
  cases m <;> exact congrArg some (Terminal.kind_eq _)

theorem MemberPart.onto_injective {m m' : MemberPart} (h : m.onto ts = m'.onto ts') :
    m = m' ∧ ts = ts' := by
  have same : m.firstKind = m'.firstKind :=
    first_agrees (m.onto_firstKind ts) (m'.onto_firstKind ts') h
  cases m <;> cases m' <;> cases same
  case shared.shared | perObject.perObject =>
    obtain ⟨rfl, h₁⟩ := leaf_agrees h
    obtain ⟨rfl, h₂⟩ := Variables.onto_injective h₁
    exact ⟨rfl, h₂⟩
  case function.function | method.method =>
    obtain ⟨rfl, h₁⟩ := leaf_agrees h
    obtain ⟨token, h₂⟩ := List.cons.inj h₁
    obtain rfl := ResultType.token_injective token
    obtain ⟨rfl, h₃⟩ := Signature.onto_injective h₂
    exact ⟨rfl, h₃⟩
  case constructor.constructor =>
    obtain ⟨rfl, h₁⟩ := leaf_agrees h
    obtain ⟨token, h₂⟩ := List.cons.inj h₁
    obtain rfl := VariableType.token_injective token
    obtain ⟨rfl, h₃⟩ := Signature.onto_injective h₂
    exact ⟨rfl, h₃⟩

/-- A brace that closes opens no member. -/
theorem MemberPart.onto_ne_close (m : MemberPart) (right : Mark .closeBrace) :
    m.onto ts ≠ right.token :: ts' := by
  intro h
  have same := m.onto_firstKind ts
  rw [h, List.head?_cons, Option.map_some, right.kind_eq] at same
  cases m <;> cases same

theorem membersOnto_injective : ∀ (ms ms' : List MemberPart) {right right' : Mark .closeBrace}
    {ts ts' : List Token}, membersOnto ms (right.token :: ts) = membersOnto ms' (right'.token :: ts') →
    ms = ms' ∧ right = right' ∧ ts = ts'
  | [], [], _, _, _, _, h => ⟨rfl, leaf_agrees h⟩
  | [], m :: _, right, _, _, _, h => (m.onto_ne_close right h.symm).elim
  | m :: _, [], _, right, _, _, h => (m.onto_ne_close right h).elim
  | m :: ms, m' :: ms', right, right', ts, ts', h => by
    obtain ⟨rfl, h₁⟩ := MemberPart.onto_injective h
    obtain ⟨rfl, h₂⟩ := membersOnto_injective ms ms' h₁
    exact ⟨rfl, h₂⟩

/-- **Classes with the same tokens have the same derivation.** -/
theorem Class.tokens_injective {c c' : Class} (h : c.tokens = c'.tokens) : c = c' := by
  obtain ⟨word, name, left, ms, right⟩ := c
  obtain ⟨word', name', left', ms', right'⟩ := c'
  obtain ⟨rfl, h₁⟩ := leaf_agrees h
  obtain ⟨rfl, h₂⟩ := leaf_agrees h₁
  obtain ⟨rfl, h₃⟩ := leaf_agrees h₂
  obtain ⟨rfl, rfl, -⟩ := membersOnto_injective ms ms' h₃
  rfl

end JackCompiler.Grammar
