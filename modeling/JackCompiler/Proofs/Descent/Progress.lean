import JackCompiler.Proofs.Descent.Calls
import JackCompiler.Proofs.Lexeme.Buffering
import Mathlib.Data.List.Chain
/-!
# The descent takes tokens and ends

A call takes tokens from the front and puts none back, and most calls take one wherever they do not
fail. What a function calls before it has taken a token is of a lower level than the function, and
there are five levels. So there is room for five calls for each token ahead: a call that is made
has less room than the one that makes it, and with no room left there is nothing to call.

        room     5 · tokens ahead + level
        levels   moreArguments ▶ expression ▶ unary ▶ subscripted ▶ primary
                 file, members ▶ member      statements ▶ statement      parameters ▶ moreParameters
-/

namespace JackCompiler.Descent

/-! ### Tokens ahead and tokens taken -/

namespace Parser

variable {p q r : Parser} {t : Token} {e : CompileError} {v w : List Token}

/-- What a parser has in front of it. -/
def reader (p : Parser) : Reader := p.buffer.reader

/-- Between two moments a parser takes these tokens, in order, and no others. -/
structure Takes (p : Parser) (w : List Token) (q : Parser) : Prop where
  ahead : p.reader.ahead = w ++ q.reader.ahead
  taken : q.taken = p.taken ++ w

theorem Takes.refl (p : Parser) : p.Takes [] p := ⟨rfl, (List.append_nil _).symm⟩

theorem Takes.trans (h : p.Takes v q) (h' : q.Takes w r) : p.Takes (v ++ w) r := by
  constructor
  · rw [h.ahead, h'.ahead, List.append_assoc]
  · rw [h'.taken, h.taken, List.append_assoc]

theorem Takes.length (h : p.Takes w q) :
    p.reader.ahead.length = w.length + q.reader.ahead.length := by
  rw [h.ahead, List.length_append]

/-- Looking ahead moves nothing. -/
theorem look_spec {x : Except CompileError (Option Token)} (h : p.look = (x, q)) :
    x = p.reader.lookahead ∧ q.reader = p.reader ∧ q.taken = p.taken := by
  cases h
  obtain ⟨same, stays, -⟩ := p.buffer.lookahead_spec rfl
  exact ⟨same, stays, rfl⟩

theorem Takes.of_look {x : Except CompileError (Option Token)} (h : p.look = (x, q)) :
    p.Takes [] q := by
  obtain ⟨-, stays, taken⟩ := look_spec h
  exact ⟨by rw [stays, List.nil_append], by rw [taken, List.append_nil]⟩

/-- Only the next token can be taken. -/
theorem take_ok (h : p.take = (.ok t, q)) :
    ∃ rest, p.reader.ahead = t :: rest ∧
      q.reader = { p.reader with ahead := rest, last := t.span.last } ∧
      q.taken = p.taken ++ [t] := by
  obtain ⟨same, moves⟩ := p.buffer.consume_reader
  rcases consumed : p.buffer.consume with ⟨x, b⟩
  rw [consumed] at same moves
  rw [take, consumed] at h
  rcases x with e | u
  · cases h
  · cases h
    rw [Reader.consume] at same moves
    cases ahead : p.buffer.reader.ahead with
    | nil =>
      simp only [ahead, Reader.peek, Reader.lookahead] at same
      cases failure : p.buffer.reader.failure <;> simp [failure] at same
    | cons u' rest =>
      rw [ahead] at same moves
      cases same
      exact ⟨rest, ahead, moves, rfl⟩

theorem Takes.of_take (h : p.take = (.ok t, q)) : p.Takes [t] q := by
  obtain ⟨rest, ahead, moved, taken⟩ := take_ok h
  exact ⟨by rw [ahead, moved]; rfl, taken⟩

/-- Without a token nothing is taken. -/
theorem take_error (h : p.take = (.error e, q)) :
    p.reader.peek = .error e ∧ q.reader = p.reader ∧ q.taken = p.taken := by
  obtain ⟨same, moves⟩ := p.buffer.consume_reader
  rcases consumed : p.buffer.consume with ⟨x, b⟩
  rw [consumed] at same moves
  rw [take, consumed] at h
  rcases x with e | u
  · cases h
    rw [Reader.consume] at same moves
    cases ahead : p.buffer.reader.ahead with
    | nil =>
      rw [ahead] at same moves
      exact ⟨same.symm, moves, rfl⟩
    | cons u rest =>
      rw [ahead] at same
      cases same
  · cases h

theorem Takes.of_take_error (h : p.take = (.error e, q)) : p.Takes [] q := by
  obtain ⟨-, stays, taken⟩ := take_error h
  exact ⟨by rw [stays, List.nil_append], by rw [taken, List.append_nil]⟩

end Parser

/-! ### Scripts that take a token -/

/-- The functions that take a token wherever they do not fail. The others are loops, and the
parameters of a routine, of which there may be none. -/
def Call.advances : Call → Bool
  | .members | .moreNames | .parameters | .statements | .operators _ => false
  | _ => true

/-- How many calls can follow one another in front of the next token. -/
def Call.level : Call → Nat
  | .file => 1
  | .members => 2
  | .member => 1
  | .parameters => 2
  | .moreParameters => 1
  | .statements => 2
  | .statement => 1
  | .moreArguments => 4
  | .expression => 3
  | .unary => 2
  | .subscripted => 1
  | _ => 0

theorem Call.level_le (c : Call) : c.level ≤ 4 := by
  cases c <;> simp [level]

namespace Script

variable {α β : Type}

/-- Every way to an end without an error takes a token. -/
def Advances : Script α → Prop
  | done _ => False
  | fail _ | take _ => True
  | look next => ∀ t, (next t).Advances
  | last next => ∀ place, (next place).Advances
  | call c next => c.advances ∨ ∀ a, (next a).Advances

/-- Until a token is taken only functions below a level are called. -/
def Descends (level : Nat) : Script α → Prop
  | done _ | fail _ | take _ => True
  | look next => ∀ t, (next t).Descends level
  | last next => ∀ place, (next place).Descends level
  | call c next => c.level < level ∧ (c.advances ∨ ∀ a, (next a).Descends level)

section

variable {level : Nat} {x : Script α}

theorem Advances.bind (h : x.Advances) (f : α → Script β) : (x >>= f).Advances := by
  change (x.bind f).Advances
  induction x with
  | done a => exact h.elim
  | fail e => trivial
  | look next ih => exact fun t => ih t (h t)
  | take next ih => trivial
  | last next ih => exact fun place => ih place (h place)
  | call c next ih => exact h.imp_right fun h a => ih a (h a)

theorem Descends.bind (h : x.Descends level) (advances : x.Advances) (f : α → Script β) :
    (x >>= f).Descends level := by
  change (x.bind f).Descends level
  induction x with
  | done a => exact advances.elim
  | fail e => trivial
  | look next ih => exact fun t => ih t (h t) (advances t)
  | take next ih => trivial
  | last next ih => exact fun place => ih place (h place) (advances place)
  | call c next ih =>
    refine ⟨h.1, ?_⟩
    rcases advances with taken | behind
    · exact .inl taken
    · exact h.2.imp_right fun h a => ih a (h a) (behind a)

theorem unexpected_advances (expected : String) : (unexpected expected : Script α).Advances := by
  intro place t
  cases t <;> trivial

theorem unexpected_descends (expected : String) :
    (unexpected expected : Script α).Descends level := by
  intro place t
  cases t <;> trivial

theorem peek_advances {f : Option Token → Script α} (h : ∀ t, (f t).Advances) :
    (peek >>= f).Advances := h

theorem peek_descends {f : Option Token → Script α} (h : ∀ t, (f t).Descends level) :
    (peek >>= f).Descends level := h

theorem kindAhead_advances {f : Option TokenKind → Script α} (h : ∀ kind, (f kind).Advances) :
    (kindAhead >>= f).Advances := fun _ => h _

theorem kindAhead_descends {f : Option TokenKind → Script α}
    (h : ∀ kind, (f kind).Descends level) : (kindAhead >>= f).Descends level := fun _ => h _

theorem sees_advances {kind : TokenKind} {f : Bool → Script α} (h : ∀ seen, (f seen).Advances) :
    (sees kind >>= f).Advances := fun _ => h _

theorem sees_descends {kind : TokenKind} {f : Bool → Script α}
    (h : ∀ seen, (f seen).Descends level) : (sees kind >>= f).Descends level := fun _ => h _

theorem expect_advances (kind : TokenKind) : (expect kind).Advances := by
  refine sees_advances fun seen => ?_
  split
  · trivial
  · exact unexpected_advances _

theorem expect_descends (kind : TokenKind) : (expect kind).Descends level := by
  refine sees_descends fun seen => ?_
  split
  · trivial
  · exact unexpected_descends _

theorem mark_advances (s : Symbol) : (mark s).Advances := (expect_advances _).bind _

theorem mark_descends (s : Symbol) : (mark s).Descends level :=
  (expect_descends _).bind (expect_advances _) _

end

end Script

open Script in
/-- A function that is said to take a token does. -/
theorem Call.script_advances {c : Call} (h : c.advances) : c.script.Advances := by
  cases c with
  | members | moreNames | parameters | statements | operators => cases h
  | file | moreParameters | expression | subscripted | moreArguments => exact .inl rfl
  | routine => trivial
  | classTree | declaration | letStatement | doStatement | ifStatement | whileStatement
  | returnStatement => exact (expect_advances _).bind _
  | block | memberCall | arguments => exact (mark_advances _).bind _
  | typeName =>
    refine peek_advances fun t => ?_
    split
    · trivial
    · exact unexpected_advances _
  | member | statement | unary | primary =>
    refine kindAhead_advances fun kind => ?_
    split <;> first
      | exact .inl rfl
      | trivial
      | exact (expect_advances _).bind _
      | exact unexpected_advances _

open Script in
/-- Until a token is taken a function calls only functions of lower levels. -/
theorem Call.script_descends (c : Call) : c.script.Descends c.level := by
  cases c with
  | file | expression | subscripted | moreArguments | moreParameters => exact ⟨by decide, .inl rfl⟩
  | routine => trivial
  | classTree | declaration | letStatement | doStatement | ifStatement | whileStatement
  | returnStatement => exact (expect_descends _).bind (expect_advances _) _
  | block | memberCall | arguments => exact (mark_descends _).bind (mark_advances _) _
  | typeName =>
    refine peek_descends fun t => ?_
    split
    · trivial
    · exact unexpected_descends _
  | members | statements =>
    refine sees_descends fun seen => ?_
    split
    · trivial
    · refine peek_descends fun t => ?_
      split
      · exact unexpected_descends _
      · exact ⟨by decide, .inl rfl⟩
  | moreNames =>
    refine sees_descends fun seen => ?_
    split <;> trivial
  | parameters =>
    refine sees_descends fun seen => ?_
    split
    · trivial
    · exact ⟨by decide, .inl rfl⟩
  | operators =>
    refine peek_descends fun t => ?_
    split
    · split <;> trivial
    · trivial
  | member | statement | unary | primary =>
    refine kindAhead_descends fun kind => ?_
    split <;> first
      | exact ⟨by decide, .inl rfl⟩
      | trivial
      | exact (expect_descends _).bind (expect_advances _) _
      | exact unexpected_descends _

/-! ### Progress -/

section

variable {α : Type} {x : Script α} {p q : Parser} {n : Nat} {c : Call}

/-- What is called only takes tokens, and takes one where it is said to. -/
def Sound (calls : (c : Call) → Parser → Option (Ending c.Result)) : Prop :=
  ∀ c p out q, calls c p = some (out, q) →
    ∃ w, p.Takes w q ∧ (c.advances → (∃ a, out = .ok a) → w ≠ [])

/-- A script takes tokens and gives none back, if what it calls does so. -/
theorem Script.run_takes {calls : (c : Call) → Parser → Option (Ending c.Result)}
    (sound : Sound calls) {out : Except CompileError α} (h : x.run calls p = some (out, q)) :
    ∃ w, p.Takes w q ∧ (x.Advances → (∃ a, out = .ok a) → w ≠ []) := by
  induction x generalizing p with
  | done a =>
    cases h
    exact ⟨[], .refl _, fun advances => advances.elim⟩
  | fail e =>
    cases h
    exact ⟨[], .refl _, fun _ ⟨a, ok⟩ => by cases ok⟩
  | look next ih =>
    rcases looked : p.look with ⟨e | t, p'⟩ <;> simp only [run, looked] at h
    · cases h
      exact ⟨[], .of_look looked, fun _ ⟨a, ok⟩ => by cases ok⟩
    · obtain ⟨w, takes, some⟩ := ih t h
      exact ⟨w, (Parser.Takes.of_look looked).trans takes, fun advances => some (advances t)⟩
  | take next ih =>
    rcases took : p.take with ⟨e | t, p'⟩ <;> simp only [run, took] at h
    · cases h
      exact ⟨[], .of_take_error took, fun _ ⟨a, ok⟩ => by cases ok⟩
    · obtain ⟨w, takes, -⟩ := ih t h
      exact ⟨[t] ++ w, (Parser.Takes.of_take took).trans takes, fun _ _ => List.cons_ne_nil t w⟩
  | last next ih =>
    obtain ⟨w, takes, some⟩ := ih _ h
    exact ⟨w, takes, fun advances => some (advances _)⟩
  | call c next ih =>
    rcases called : calls c p with _ | ⟨e | a, p'⟩ <;> simp only [run, called] at h
    · cases h
    · cases h
      obtain ⟨w, takes, -⟩ := sound c p _ _ called
      exact ⟨w, takes, fun _ ⟨a, ok⟩ => by cases ok⟩
    · obtain ⟨v, before, first⟩ := sound c p _ _ called
      obtain ⟨w, behind, some⟩ := ih a h
      refine ⟨v ++ w, before.trans behind, fun advances ok => ?_⟩
      rcases advances with here | there
      · exact List.append_ne_nil_of_left_ne_nil (first here ⟨a, rfl⟩) w
      · exact List.append_ne_nil_of_right_ne_nil v (some (there a) ok)

/-- So does every call, however deep it goes. -/
theorem Call.run_sound (n : Nat) : Sound (Call.run n) := by
  induction n with
  | zero =>
    intro c p out q h
    cases h
  | succ n ih =>
    intro c p out q h
    obtain ⟨w, takes, some⟩ := Script.run_takes ih h
    exact ⟨w, takes, fun advances => some (script_advances advances)⟩

/-! ### Every call comes to an end -/

/-- The calls that may be open at a time: five for every token ahead, and those in front of it. -/
def Call.room (c : Call) (p : Parser) : Nat := 5 * p.reader.ahead.length + c.level

/-- Behind a token any function may be called. -/
theorem Script.run_returns_behind
    (returns : ∀ c p, c.room p < n → ∃ out, Call.run n c p = some out) (x : Script α)
    (room : 5 * (p.reader.ahead.length + 1) ≤ n) : ∃ out, x.run (Call.run n) p = some out := by
  induction x generalizing p with
  | done a => exact ⟨_, rfl⟩
  | fail e => exact ⟨_, rfl⟩
  | look next ih =>
    rcases looked : p.look with ⟨e | t, p'⟩ <;> simp only [run, looked]
    · exact ⟨_, rfl⟩
    · have length := (Parser.Takes.of_look looked).length
      rw [List.length_nil] at length
      exact ih t (by omega)
  | take next ih =>
    rcases took : p.take with ⟨e | t, p'⟩ <;> simp only [run, took]
    · exact ⟨_, rfl⟩
    · have length := (Parser.Takes.of_take took).length
      exact ih t (by omega)
  | last next ih => exact ih _ room
  | call c next ih =>
    have level := c.level_le
    obtain ⟨⟨out, p'⟩, called⟩ := returns c p (by rw [Call.room]; omega)
    rcases out with e | a <;> simp only [run, called]
    · exact ⟨_, rfl⟩
    · obtain ⟨w, takes, -⟩ := Call.run_sound n c p _ _ called
      have length := takes.length
      exact ih a (by omega)

/-- In front of a token a function of a lower level may be called. -/
theorem Script.run_returns {level : Nat}
    (returns : ∀ c p, c.room p < n → ∃ out, Call.run n c p = some out)
    (descends : x.Descends level) (room : 5 * p.reader.ahead.length + level ≤ n) :
    ∃ out, x.run (Call.run n) p = some out := by
  induction x generalizing p with
  | done a => exact ⟨_, rfl⟩
  | fail e => exact ⟨_, rfl⟩
  | look next ih =>
    rcases looked : p.look with ⟨e | t, p'⟩ <;> simp only [run, looked]
    · exact ⟨_, rfl⟩
    · have length := (Parser.Takes.of_look looked).length
      rw [List.length_nil] at length
      exact ih t (descends t) (by omega)
  | take next ih =>
    rcases took : p.take with ⟨e | t, p'⟩ <;> simp only [run, took]
    · exact ⟨_, rfl⟩
    · have length := (Parser.Takes.of_take took).length
      rw [List.length_singleton] at length
      exact run_returns_behind returns (next t) (by omega)
  | last next ih => exact ih _ (descends _) room
  | call c next ih =>
    obtain ⟨lower, behind⟩ := descends
    obtain ⟨⟨out, p'⟩, called⟩ := returns c p (by rw [Call.room]; omega)
    rcases out with e | a <;> simp only [run, called]
    · exact ⟨_, rfl⟩
    · obtain ⟨w, takes, some⟩ := Call.run_sound n c p _ _ called
      have length := takes.length
      rcases behind with advances | descends
      · have taken := List.length_pos_iff.2 (some advances ⟨a, rfl⟩)
        exact run_returns_behind returns (next a) (by omega)
      · exact ih a (descends a) (by omega)

/-- **Every call ends**, with a tree or with an error, whatever is ahead. -/
theorem Call.run_returns (n : Nat) (c : Call) (p : Parser) (room : c.room p < n) :
    ∃ out, c.run n p = some out := by
  induction n generalizing c p with
  | zero => exact absurd room (Nat.not_lt_zero _)
  | succ n ih => exact Script.run_returns ih c.script_descends (Nat.le_of_lt_succ room)

end

/-! ### Calls that are open at a time -/

/-- A script that is run with this parser makes a call, with that parser. -/
inductive Script.Reaches {α : Type} : Script α → Parser → Call → Parser → Prop
  | look {next : Option Token → Script α} {t : Option Token} {p p' q : Parser} {c : Call}
      (looked : p.look = (.ok t, p')) (behind : Reaches (next t) p' c q) :
      Reaches (.look next) p c q
  | take {next : Token → Script α} {t : Token} {p p' q : Parser} {c : Call}
      (took : p.take = (.ok t, p')) (behind : Reaches (next t) p' c q) :
      Reaches (.take next) p c q
  | last {next : Position → Script α} {p q : Parser} {c : Call}
      (behind : Reaches (next p.buffer.last) p c q) : Reaches (.last next) p c q
  | here {c : Call} {next : c.Result → Script α} {p : Parser} : Reaches (.call c next) p c p
  | call {c c' : Call} {next : c.Result → Script α} {n : Nat} {a : c.Result} {p p' q : Parser}
      (called : c.run n p = some (.ok a, p')) (behind : Reaches (next a) p' c' q) :
      Reaches (.call c next) p c' q

/-- A call in front of the next token is of a lower level. -/
theorem Script.Reaches.takes {α : Type} {x : Script α} {p q : Parser} {c : Call}
    (h : x.Reaches p c q) :
    ∃ w, p.Takes w q ∧ ∀ level, x.Descends level → w = [] → c.level < level := by
  induction h with
  | look looked behind ih =>
    obtain ⟨w, takes, lower⟩ := ih
    exact ⟨w, (Parser.Takes.of_look looked).trans takes, fun level h => lower level (h _)⟩
  | take took behind ih =>
    obtain ⟨w, takes, -⟩ := ih
    exact ⟨_, (Parser.Takes.of_take took).trans takes, fun _ _ none => by cases none⟩
  | last behind ih =>
    obtain ⟨w, takes, lower⟩ := ih
    exact ⟨w, takes, fun level h => lower level (h _)⟩
  | here => exact ⟨[], .refl _, fun level h _ => h.1⟩
  | call called behind ih =>
    obtain ⟨v, before, some⟩ := Call.run_sound _ _ _ _ _ called
    obtain ⟨w, takes, lower⟩ := ih
    refine ⟨v ++ w, before.trans takes, fun level h none => ?_⟩
    obtain ⟨none, none'⟩ := List.append_eq_nil_iff.1 none
    rcases h.2 with advances | descends
    · exact absurd none (some advances ⟨_, rfl⟩)
    · exact lower level (descends _) none'

/-- A call that is open, and the parser when it was made. -/
structure Frame where
  call : Call
  parser : Parser

namespace Frame

variable {f g : Frame} {stack : List Frame}

/-- The call makes another one. -/
def Opens (f g : Frame) : Prop := f.call.script.Reaches f.parser g.call g.parser

/-- A call has more room than the calls it makes. -/
theorem Opens.room_lt (h : f.Opens g) : g.call.room g.parser < f.call.room f.parser := by
  obtain ⟨w, takes, lower⟩ := Script.Reaches.takes h
  have length := takes.length
  have level := g.call.level_le
  rw [Call.room, Call.room]
  rcases Nat.eq_zero_or_pos w.length with none | some
  · have := lower _ f.call.script_descends (List.length_eq_zero_iff.1 none)
    omega
  · omega

/-- In front of the next token it is of a higher level. -/
theorem Opens.level_lt (h : f.Opens g) (idle : g.parser.taken = f.parser.taken) :
    g.call.level < f.call.level := by
  obtain ⟨w, takes, lower⟩ := Script.Reaches.takes h
  refine lower _ f.call.script_descends ?_
  simpa [idle] using takes.taken

/-- A call that makes one of its own level, such as the next round of a loop, has taken a token. -/
theorem Opens.ahead_lt (h : f.Opens g) (again : g.call.level = f.call.level) :
    g.parser.reader.ahead.length < f.parser.reader.ahead.length := by
  obtain ⟨w, takes, lower⟩ := Script.Reaches.takes h
  have length := takes.length
  rcases Nat.eq_zero_or_pos w.length with none | some
  · have := lower _ f.call.script_descends (List.length_eq_zero_iff.1 none)
    omega
  · omega

/-- Calls that make one another are no more than there is room for. -/
theorem length_le_room (h : (f :: stack).IsChain Opens) :
    stack.length ≤ f.call.room f.parser := by
  induction stack generalizing f with
  | nil => exact Nat.zero_le _
  | cons g stack ih =>
    obtain ⟨opens, rest⟩ := List.isChain_cons_cons.1 h
    have room := opens.room_lt
    have := ih rest
    rw [List.length_cons]
    omega

/-- As long as no token is taken they go down level by level. -/
theorem length_le_level (h : (f :: stack).IsChain Opens)
    (idle : ∀ g ∈ stack, g.parser.taken = f.parser.taken) : stack.length ≤ f.call.level := by
  induction stack generalizing f with
  | nil => exact Nat.zero_le _
  | cons g stack ih =>
    obtain ⟨opens, rest⟩ := List.isChain_cons_cons.1 h
    obtain ⟨here, there⟩ := List.forall_mem_cons.1 idle
    have level := opens.level_lt here
    have := ih rest fun k member => (there k member).trans here.symm
    rw [List.length_cons]
    omega

/-- The rounds of a loop are no more than the tokens ahead. -/
theorem length_le_ahead (h : (f :: stack).IsChain Opens)
    (again : ∀ g ∈ stack, g.call.level = f.call.level) :
    stack.length ≤ f.parser.reader.ahead.length := by
  induction stack generalizing f with
  | nil => exact Nat.zero_le _
  | cons g stack ih =>
    obtain ⟨opens, rest⟩ := List.isChain_cons_cons.1 h
    obtain ⟨here, there⟩ := List.forall_mem_cons.1 again
    have fewer := opens.ahead_lt here
    have := ih rest fun k member => (there k member).trans here.symm
    rw [List.length_cons]
    omega

end Frame

end JackCompiler.Descent
