import JackCompiler.Generation.Expression
/-!
# Instructions for statements

The instructions of a statement leave the stack as it was. A statement can declare locals, which are
visible from there on, also behind the end of its block, and it takes the numbers of its labels from
a counter of its routine. A number is taken when the statement begins, so it is the order of the
text that numbers the labels.
-/

namespace JackCompiler

/-- What one statement leaves to the next: the names visible, and the number of the next label. -/
structure Frame where
  scope : Scope
  nextLabel : Nat
  deriving DecidableEq, Repr

namespace Frame

/-- The frame with one more label taken. -/
def takeLabel (f : Frame) : Frame := { f with nextLabel := f.nextLabel + 1 }

/-- The frame with more locals. -/
def declare (f : Frame) (d : Declaration) : Frame := { f with scope := f.scope.withLocals d }

end Frame

/-- In front of the alternative of a statement with `if`. -/
def elseLabel (n : Nat) : String := s!"IF_ELSE_{n}"

/-- Behind a statement with `if`. -/
def doneLabel (n : Nat) : String := s!"IF_DONE_{n}"

/-- In front of the condition of a loop. -/
def startLabel (n : Nat) : String := s!"WHILE_START_{n}"

/-- Behind a loop. -/
def endLabel (n : Nat) : String := s!"WHILE_END_{n}"

/-- Jumps unless the value on the stack is the word of all ones. -/
def unlessGoto (label : String) : List Instruction := [.operate .not, .ifGoto label]

mutual

/-- The instructions of a statement, and the frame behind it. -/
def Stmt.code (className : String) : Stmt → Frame → Generated (List Instruction × Frame)
  | .declare d, f => .ok ([], f.declare d)
  | .assign name value position, f => do
    let site : Site := ⟨className, f.scope⟩
    let a ← value.code site
    let v ← site.lookup name position
    return (a ++ [v.pop], f)
  | .assignElement name subscript value position, f => do
    let site : Site := ⟨className, f.scope⟩
    let a ← value.code site
    let v ← site.lookup name position
    let b ← subscript.code site
    return (a ++ v.push :: b ++ selectElement ++ [.pop .that 0], f)
  | .ifThen condition body, f => do
    let n := f.nextLabel
    let a ← condition.code ⟨className, f.scope⟩
    let (b, f) ← blockCode className body f.takeLabel
    return (a ++ unlessGoto (doneLabel n) ++ b ++ [.label (doneLabel n)], f)
  | .ifElse condition body alternative, f => do
    let n := f.nextLabel
    let a ← condition.code ⟨className, f.scope⟩
    let (b, f) ← blockCode className body f.takeLabel
    let (c, f) ← blockCode className alternative f
    return (a ++ unlessGoto (elseLabel n) ++ b ++ .goto (doneLabel n) :: .label (elseLabel n) ::
      c ++ [.label (doneLabel n)], f)
  | .repeatWhile condition body, f => do
    let n := f.nextLabel
    let a ← condition.code ⟨className, f.scope⟩
    let (b, f) ← blockCode className body f.takeLabel
    return (.label (startLabel n) :: a ++ unlessGoto (endLabel n) ++ b ++
      [.goto (startLabel n), .label (endLabel n)], f)
  | .perform call _, f => do
    let a ← call.code ⟨className, f.scope⟩
    return (a ++ [.pop .temp 0], f)
  | .giveBack none _, f => .ok ([pushConstant 0, .giveBack], f)
  | .giveBack (some value) _, f => do
    let a ← value.code ⟨className, f.scope⟩
    return (a ++ [.giveBack], f)

/-- The instructions of a block, and the frame behind it. -/
def blockCode (className : String) : List Stmt → Frame → Generated (List Instruction × Frame)
  | [], f => .ok ([], f)
  | s :: ss, f => do
    let (a, f) ← s.code className f
    let (b, f) ← blockCode className ss f
    return (a ++ b, f)

end

end JackCompiler
