import JackCompiler.Proofs.Generation.Frames
import JackCompiler.Proofs.Names.Mentions
/-!
# Variables are accessed where they are mentioned

The pushes and pops of variables in the code of a body are those of its mentions, one for each and
in the same order, and each is of the variable that the name stands for at its place. So where code
is made at all, every mention is allowed.

        let a[i] = x;     push x, push a, push i, add, pop pointer 1, pop that 0
                          └── x ──┴── a ──┴── i ──┘
-/

namespace JackCompiler

/-- Whether an instruction uses a variable. -/
def Instruction.isAccess : Instruction → Bool
  | push .locals _ | push .arguments _ | push .this _ | push .statics _ => true
  | pop .locals _ | pop .arguments _ | pop .this _ | pop .statics _ => true
  | _ => false

/-- The instructions that use variables, in order. -/
def accesses (code : List Instruction) : List Instruction := code.filter Instruction.isAccess

@[simp] theorem accesses_append (a b : List Instruction) :
    accesses (a ++ b) = accesses a ++ accesses b := List.filter_append ..

theorem Variable.accesses_push (v : Variable) : accesses [v.push] = [v.push] := by
  obtain ⟨name, storage, slot, typeName⟩ := v
  cases storage <;> rfl

theorem Variable.accesses_pop (v : Variable) : accesses [v.pop] = [v.pop] := by
  obtain ⟨name, storage, slot, typeName⟩ := v
  cases storage <;> rfl

/-- The code accesses the variables of its mentions, all of which are allowed. -/
structure Follows (base : Scope) (code : List Instruction) (mentions : List Mention) : Prop where
  accesses : accesses code = mentions.filterMap (·.access base)
  allowed : ∀ m ∈ mentions, m.Allowed base

namespace Follows

variable {base : Scope} {a b : List Instruction} {m : Mention} {ms ns : List Mention} {v : Variable}

theorem append (ha : Follows base a ms) (hb : Follows base b ns) :
    Follows base (a ++ b) (ms ++ ns) := by
  refine ⟨?_, List.forall_mem_append.2 ⟨ha.allowed, hb.allowed⟩⟩
  rw [accesses_append, List.filterMap_append, ha.accesses, hb.accesses]

/-- Code without an access follows no mention. -/
theorem of_nil (h : JackCompiler.accesses a = []) : Follows base a [] := ⟨h, List.forall_mem_nil _⟩

/-- Code without an access changes nothing. -/
theorem append_nil (ha : Follows base a ms) (h : JackCompiler.accesses b = []) :
    Follows base (a ++ b) ms := by
  have none : Follows base b [] := of_nil h
  simpa using ha.append none

theorem nil_append (h : JackCompiler.accesses a = []) (hb : Follows base b ms) :
    Follows base (a ++ b) ms := (of_nil h).append hb

/-- One instruction uses the variable of one mention. -/
theorem singleton {i : Instruction} (access : m.access base = some i)
    (same : JackCompiler.accesses [i] = [i]) (allowed : m.Allowed base) : Follows base [i] [m] := by
  refine ⟨?_, List.forall_mem_singleton.2 allowed⟩
  rw [same, List.filterMap_cons_some access, List.filterMap_nil]

/-- A variable that is read is pushed. That of a receiver is an object. -/
theorem pushed (reads : m.use.reads) (h : m.resolved base = some v)
    (object : m.use = .receiver → ¬ isPrimitive v.typeName) : Follows base [v.push] [m] := by
  refine singleton (by rw [Mention.access_reads reads, h]; rfl) v.accesses_push ?_
  obtain ⟨use, name, position, declared⟩ := m
  cases use with
  | read | array => exact fun none => nomatch h.symm.trans none
  | receiver =>
    intro u hu
    obtain rfl := Option.some.inj (h.symm.trans hu)
    exact object rfl
  | assigned | this => cases reads

/-- A variable that is assigned is popped. -/
theorem popped {name : String} {position : Option Position} {declared : List (String × String)}
    (h : (base.defineLocals declared).resolve name = some v) :
    Follows base [v.pop] [⟨.assigned, name, position, declared⟩] := by
  have resolved : Mention.resolved base ⟨.assigned, name, position, declared⟩ = some v := h
  refine singleton ?_ v.accesses_pop fun none => nomatch resolved.symm.trans none
  rw [Mention.access, resolved]
  rfl

/-- The object that a routine works on is no variable. -/
theorem this {position : Option Position} {declared : List (String × String)}
    (h : base.kind.hasReceiver) : Follows base [pushObject] [⟨.this, "this", position, declared⟩] :=
  ⟨rfl, List.forall_mem_singleton.2 h⟩

end Follows

/-! ### Expressions -/

/-- Making a string uses no variable. -/
theorem stringCode_accesses {value : String} {code : List Instruction}
    (h : stringCode value = .ok code) : accesses code = [] := by
  unfold stringCode at h
  split at h
  · cases h
    refine List.filter_eq_nil_iff.2 fun i hi => ?_
    obtain rfl | rfl | ⟨byte, -, rfl | rfl⟩ : i = pushConstant _ ∨ i = .call "String.new" 1 ∨
        ∃ byte ∈ Utf8.bytes value, i = pushConstant byte.toUInt16 ∨
          i = .call "String.appendChar" 2 := by simpa using hi
    all_goals exact Bool.false_ne_true
  · cases h

theorem BinaryOp.accesses (op : BinaryOp) : JackCompiler.accesses [op.instruction] = [] := by
  cases op <;> rfl

theorem UnaryOp.accesses (op : UnaryOp) : JackCompiler.accesses [op.instruction] = [] := by
  cases op <;> rfl

variable {base : Scope} {declared : List (String × String)} {className : String}

mutual

/-- The code of an expression accesses what it mentions. -/
theorem Expr.code_follows : ∀ {e : Expr} {code : List Instruction},
    e.code ⟨className, base.defineLocals declared⟩ = .ok code →
    Follows base code (e.mentions declared)
  | .constant .., _, h | .null, _, h | .boolean true, _, h | .boolean false, _, h => by
    cases h
    exact .of_nil rfl
  | .string value, _, h => .of_nil (stringCode_accesses h)
  | .this _, _, h => by
    obtain ⟨i, hi, h⟩ := generated_bind.1 h
    obtain ⟨object, rfl⟩ := Site.receiver_eq_ok.1 hi
    cases h
    exact .this object
  | .reference .., _, h => by
    obtain ⟨v, hv, h⟩ := generated_bind.1 h
    cases h
    exact .pushed rfl (Site.lookup_eq_ok.1 hv) nofun
  | .binary op left right _, _, h => by
    obtain ⟨a, ha, h⟩ := generated_bind.1 h
    obtain ⟨b, hb, h⟩ := generated_bind.1 h
    cases h
    exact ((Expr.code_follows ha).append (Expr.code_follows hb)).append_nil op.accesses
  | .unary op operand, _, h => by
    obtain ⟨a, ha, h⟩ := generated_bind.1 h
    cases h
    exact (Expr.code_follows ha).append_nil op.accesses
  | .call name arguments _, _, h => by
    obtain ⟨a, ha, h⟩ := generated_bind.1 h
    have pushed := argumentsCode_follows ha
    split at h
    · cases h
      exact (pushed.nil_append (a := [pushObject]) rfl).append_nil rfl
    · cases h
      exact pushed.append_nil rfl
  | .methodCall (.this position) name arguments _, _, h => by
    obtain ⟨i, hi, h⟩ := generated_bind.1 h
    obtain ⟨object, rfl⟩ := Site.receiver_eq_ok.1 hi
    obtain ⟨a, ha, h⟩ := generated_bind.1 h
    cases h
    have receiver : Follows base [pushObject] [⟨.this, "this", position, declared⟩] := .this object
    exact (receiver.append (argumentsCode_follows ha)).append_nil rfl
  | .methodCall (.reference object position) name arguments _, _, h => by
    simp only [Expr.code] at h
    split at h
    · next v hv =>
      split at h
      · cases h
      · next primitive =>
        obtain ⟨a, ha, h⟩ := generated_bind.1 h
        cases h
        have receiver : Follows base [v.push] [⟨.receiver, object, position, declared⟩] :=
          .pushed rfl hv fun _ => primitive
        exact (receiver.append (argumentsCode_follows ha)).append_nil rfl
    · next hv =>
      -- the name of a class: nothing is pushed
      obtain ⟨a, ha, h⟩ := generated_bind.1 h
      cases h
      have resolved : Mention.resolved base ⟨.receiver, object, position, declared⟩ = none := hv
      have receiver : Follows base [] [⟨.receiver, object, position, declared⟩] := by
        refine ⟨?_, List.forall_mem_singleton.2 fun v hv => nomatch resolved.symm.trans hv⟩
        rw [List.filterMap_cons_none (by rw [Mention.access_reads rfl, resolved]; rfl)]
        rfl
      exact (receiver.append (argumentsCode_follows ha)).append_nil rfl
  | .index target subscript, _, h => by
    obtain ⟨a, ha, h⟩ := generated_bind.1 h
    obtain ⟨b, hb, h⟩ := generated_bind.1 h
    cases h
    rw [List.append_assoc]
    exact ((Expr.code_follows ha).append (Expr.code_follows hb)).append_nil rfl

/-- The code of arguments accesses what they mention. -/
theorem argumentsCode_follows : ∀ {es : List Expr} {code : List Instruction},
    argumentsCode ⟨className, base.defineLocals declared⟩ es = .ok code →
    Follows base code (allMentions declared es)
  | [], _, h => by
    cases h
    exact .of_nil rfl
  | e :: es, _, h => by
    obtain ⟨a, ha, h⟩ := generated_bind.1 h
    obtain ⟨b, hb, h⟩ := generated_bind.1 h
    cases h
    exact (Expr.code_follows ha).append (argumentsCode_follows hb)

end

/-! ### Statements -/

mutual

/-- The code of a statement accesses what it mentions. -/
theorem Stmt.code_follows {declared : List (String × String)} :
    ∀ {s : Stmt} {f f' : Frame} {code : List Instruction},
    f.scope = base.defineLocals declared → s.code className f = .ok (code, f') →
    Follows base code (s.mentions declared)
  | .declare d, f, _, _, _, h => by
    cases h
    exact .of_nil rfl
  | .assign name value position, ⟨_, n⟩, _, _, rfl, h => by
    obtain ⟨a, ha, h⟩ := generated_bind.1 h
    obtain ⟨v, hv, h⟩ := generated_bind.1 h
    cases h
    exact (Expr.code_follows ha).append (.popped (Site.lookup_eq_ok.1 hv))
  | .assignElement name subscript value position, ⟨_, n⟩, _, _, rfl, h => by
    obtain ⟨a, ha, h⟩ := generated_bind.1 h
    obtain ⟨v, hv, h⟩ := generated_bind.1 h
    obtain ⟨b, hb, h⟩ := generated_bind.1 h
    cases h
    have array : Follows base [v.push] [⟨.array, name, position, declared⟩] :=
      .pushed rfl (Site.lookup_eq_ok.1 hv) nofun
    have address := array.append (Expr.code_follows hb)
    rw [List.append_assoc]
    exact ((Expr.code_follows ha).append address).append_nil rfl
  | .ifThen condition body, ⟨_, n⟩, _, _, rfl, h => by
    obtain ⟨a, ha, h⟩ := generated_bind.1 h
    obtain ⟨⟨b, f₁⟩, hb, h⟩ := generated_bind.1 h
    cases h
    have test := (Expr.code_follows ha).append_nil (b := unlessGoto (doneLabel n)) rfl
    exact (test.append (blockCode_follows rfl hb)).append_nil rfl
  | .ifElse condition body alternative, ⟨_, n⟩, _, _, rfl, h => by
    obtain ⟨a, ha, h⟩ := generated_bind.1 h
    obtain ⟨⟨b, f₁⟩, hb, h⟩ := generated_bind.1 h
    obtain ⟨⟨c, f₂⟩, hc, h⟩ := generated_bind.1 h
    cases h
    have between : f₁.scope = base.defineLocals (declared ++ blockLocals body) :=
      blockCode_locals rfl hb
    have test := (Expr.code_follows ha).append_nil (b := unlessGoto (elseLabel n)) rfl
    have passed := (blockCode_follows between hc).nil_append
      (a := [.goto (doneLabel n), .label (elseLabel n)]) rfl
    exact ((test.append (blockCode_follows rfl hb)).append passed).append_nil rfl
  | .repeatWhile condition body, ⟨_, n⟩, _, _, rfl, h => by
    obtain ⟨a, ha, h⟩ := generated_bind.1 h
    obtain ⟨⟨b, f₁⟩, hb, h⟩ := generated_bind.1 h
    cases h
    have begins := (Expr.code_follows ha).nil_append (a := [.label (startLabel n)]) rfl
    have test := begins.append_nil (b := unlessGoto (endLabel n)) rfl
    exact (test.append (blockCode_follows rfl hb)).append_nil rfl
  | .perform call _, ⟨_, n⟩, _, _, rfl, h => by
    obtain ⟨a, ha, h⟩ := generated_bind.1 h
    cases h
    exact (Expr.code_follows ha).append_nil rfl
  | .giveBack none _, _, _, _, _, h => by
    cases h
    exact .of_nil rfl
  | .giveBack (some value) _, ⟨_, n⟩, _, _, rfl, h => by
    obtain ⟨a, ha, h⟩ := generated_bind.1 h
    cases h
    exact (Expr.code_follows ha).append_nil rfl

/-- The code of a block accesses what it mentions. -/
theorem blockCode_follows {declared : List (String × String)} :
    ∀ {ss : List Stmt} {f f' : Frame} {code : List Instruction},
    f.scope = base.defineLocals declared → blockCode className ss f = .ok (code, f') →
    Follows base code (blockMentions declared ss)
  | [], _, _, _, _, h => by
    cases h
    exact .of_nil rfl
  | s :: ss, f, _, _, scope, h => by
    obtain ⟨⟨a, f₁⟩, ha, h⟩ := generated_bind.1 h
    obtain ⟨⟨b, f₂⟩, hb, h⟩ := generated_bind.1 h
    cases h
    have between := Stmt.code_locals scope ha
    exact (Stmt.code_follows scope ha).append (blockCode_follows between hb)

end

/-! ### Routines -/

/-- The body of a routine accesses what it mentions. -/
theorem Routine.body_follows {table : Table} {r : Routine} {code : List Instruction}
    (h : r.code className table = .ok code) :
    ∃ body, code = r.front className table ++ body ∧
      Follows (r.scope table) body r.mentions := by
  obtain ⟨body, f, hb, rfl⟩ := Routine.code_eq_ok h
  exact ⟨body, rfl, blockCode_follows (Scope.defineLocals_nil _).symm hb⟩

end JackCompiler
