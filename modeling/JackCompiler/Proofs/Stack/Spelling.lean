import JackCompiler.Proofs.Text.Digits
import JackCompiler.Stack.Reading
import Mathlib.Tactic.SplitIfs
/-!
# How instructions are spelled

The words that spell an instruction are its command and its operands: the name of a segment, any
word where a name is due, and any numeral where a number is due. Nothing is popped into a constant.
An instruction is read from the words that spell it, and other words are refused.

        push   local   +007          pop   that   0          label   a.b:c
               └ name  └ numeral                                     └ any word
-/

namespace JackCompiler

theorem Segment.ofName_eq_ok {w : String} {s : Segment} : ofName w = .ok s ↔ w = s.name := by
  constructor
  · intro h
    unfold ofName at h
    split at h
    · next found =>
      cases h
      simpa [eq_comm] using List.find?_some found
    · cases h
  · rintro rfl
    cases s <;> rfl

theorem Operation.ofName?_eq_some {w : String} {o : Operation} :
    ofName? w = some o ↔ w = o.name := by
  constructor
  · intro h
    simpa [eq_comm] using List.find?_some h
  · rintro rfl
    cases o <;> rfl

namespace Instruction

/-- The words spell the instruction. -/
inductive Spelled : List String → Instruction → Prop
  | push (s : Segment) {w : String} {n : UInt16} (numeral : IsNumeral w n) :
    Spelled ["push", s.name, w] (.push s n)
  | pop {s : Segment} {w : String} {n : UInt16} (place : s ≠ .constant) (numeral : IsNumeral w n) :
    Spelled ["pop", s.name, w] (.pop s n)
  | operate (o : Operation) : Spelled [o.name] (.operate o)
  | label (name : String) : Spelled ["label", name] (.label name)
  | goto (name : String) : Spelled ["goto", name] (.goto name)
  | ifGoto (name : String) : Spelled ["if-goto", name] (.ifGoto name)
  | function (name : String) {w : String} {n : UInt16} (numeral : IsNumeral w n) :
    Spelled ["function", name, w] (.function name n)
  | call (name : String) {w : String} {n : UInt16} (numeral : IsNumeral w n) :
    Spelled ["call", name, w] (.call name n)
  | giveBack : Spelled ["return"] .giveBack

/-! ### Operands -/

variable {command w : String} {operands : List String} {i : Instruction}

/-- What reading gives, it gives behind its first part. -/
theorem reading_bind {α : Type} {x : Except InstructionError α}
    {f : α → Except InstructionError Instruction} :
    (x >>= f) = .ok i ↔ ∃ a, x = .ok a ∧ f a = .ok i := by
  cases x with
  | ok a => exact ⟨fun h => ⟨a, rfl, h⟩, fun ⟨_, ha, h⟩ => by cases ha; exact h⟩
  | error e => exact ⟨(nomatch ·), fun ⟨_, ha, _⟩ => nomatch ha⟩

theorem operandWord_eq_ok {n : UInt16} : operandWord command w = .ok n ↔ IsNumeral w n := by
  rw [← Decimal.word?_eq_some, operandWord]
  cases Decimal.word? w.toList <;> simp

theorem readAccess_eq_ok {make : Segment → UInt16 → Except InstructionError Instruction} :
    readAccess command make operands = .ok i ↔
      ∃ (s : Segment) (w : String) (n : UInt16), operands = [s.name, w] ∧ IsNumeral w n ∧
        make s n = .ok i := by
  constructor
  · intro h
    match operands with
    | [segment, slot] =>
      obtain ⟨s, named, h⟩ := reading_bind.1 h
      obtain ⟨n, numeral, h⟩ := reading_bind.1 h
      exact ⟨s, slot, n, by rw [Segment.ofName_eq_ok.1 named], operandWord_eq_ok.1 numeral, h⟩
    | [] | [_] | _ :: _ :: _ :: _ => cases h
  · rintro ⟨s, w, n, rfl, numeral, made⟩
    refine reading_bind.2 ⟨s, Segment.ofName_eq_ok.2 rfl, ?_⟩
    exact reading_bind.2 ⟨n, operandWord_eq_ok.2 numeral, made⟩

theorem readJump_eq_ok {make : String → Instruction} :
    readJump command make operands = .ok i ↔ ∃ name, operands = [name] ∧ make name = i := by
  constructor
  · intro h
    match operands with
    | [name] => exact ⟨name, rfl, Except.ok.inj h⟩
    | [] | _ :: _ :: _ => cases h
  · rintro ⟨name, rfl, rfl⟩
    rfl

theorem readRoutine_eq_ok {make : String → UInt16 → Instruction} :
    readRoutine command make operands = .ok i ↔
      ∃ name w n, operands = [name, w] ∧ IsNumeral w n ∧ make name n = i := by
  constructor
  · intro h
    match operands with
    | [name, number] =>
      obtain ⟨n, numeral, h⟩ := reading_bind.1 h
      exact ⟨name, number, n, rfl, operandWord_eq_ok.1 numeral, Except.ok.inj h⟩
    | [] | [_] | _ :: _ :: _ :: _ => cases h
  · rintro ⟨name, w, n, rfl, numeral, rfl⟩
    exact reading_bind.2 ⟨n, operandWord_eq_ok.2 numeral, rfl⟩

theorem readPlain_eq_ok {j : Instruction} :
    readPlain command j operands = .ok i ↔ operands = [] ∧ j = i := by
  constructor
  · intro h
    match operands with
    | [] => exact ⟨rfl, Except.ok.inj h⟩
    | _ :: _ => cases h
  · rintro ⟨rfl, rfl⟩
    rfl

/-! ### Instructions -/

theorem spelled_of_ofCommand (h : ofCommand command operands = .ok i) :
    Spelled (command :: operands) i := by
  rw [ofCommand] at h
  split_ifs at h
  case pos command =>
    obtain ⟨s, w, n, rfl, numeral, made⟩ := readAccess_eq_ok.1 h
    cases made
    exact command ▸ .push s numeral
  case pos command =>
    obtain ⟨s, w, n, rfl, numeral, made⟩ := readAccess_eq_ok.1 h
    unfold popInto at made
    split at made
    · cases made
    · next place =>
      cases made
      exact command ▸ .pop place numeral
  case pos command =>
    obtain ⟨name, rfl, rfl⟩ := readJump_eq_ok.1 h
    exact command ▸ .label name
  case pos command =>
    obtain ⟨name, rfl, rfl⟩ := readJump_eq_ok.1 h
    exact command ▸ .goto name
  case pos command =>
    obtain ⟨name, rfl, rfl⟩ := readJump_eq_ok.1 h
    exact command ▸ .ifGoto name
  case pos command =>
    obtain ⟨name, w, n, rfl, numeral, rfl⟩ := readRoutine_eq_ok.1 h
    exact command ▸ .function name numeral
  case pos command =>
    obtain ⟨name, w, n, rfl, numeral, rfl⟩ := readRoutine_eq_ok.1 h
    exact command ▸ .call name numeral
  case pos command =>
    obtain ⟨rfl, rfl⟩ := readPlain_eq_ok.1 h
    exact command ▸ .giveBack
  case neg =>
    split at h
    · next o named =>
      obtain ⟨rfl, rfl⟩ := readPlain_eq_ok.1 h
      exact Operation.ofName?_eq_some.1 named ▸ .operate o
    · cases h

/-- **An instruction is read from the words that spell it, and from no others.** -/
theorem ofWords_eq_ok {words : List String} : ofWords words = .ok i ↔ Spelled words i := by
  constructor
  · intro h
    match words with
    | [] =>
      have unknown : ofWords [] = .error (.unknownCommand "") := by cbv
      exact nomatch unknown.symm.trans h
    | command :: operands => exact spelled_of_ofCommand h
  · intro h
    cases h with
    | push s numeral => exact readAccess_eq_ok.2 ⟨s, _, _, rfl, numeral, rfl⟩
    | pop place numeral => exact readAccess_eq_ok.2 ⟨_, _, _, rfl, numeral, if_neg place⟩
    | operate o => cases o <;> rfl
    | label name | goto name | ifGoto name => rfl
    | function name numeral => exact readRoutine_eq_ok.2 ⟨name, _, _, rfl, numeral, rfl⟩
    | call name numeral => exact readRoutine_eq_ok.2 ⟨name, _, _, rfl, numeral, rfl⟩
    | giveBack => rfl

end Instruction

end JackCompiler
