import JackCompiler.Json.Number
import JackCompiler.Json.Quotation
/-!
# Values in JSON

A value that nobody asks for is skipped: only its form is looked at. A value of another shape than
the one asked for is refused: a word, a number or a string is read first, so that a fault in it
counts, and of a list or a record the first bracket is enough.
-/

namespace JackCompiler.Json

/-- What brackets hold. -/
inductive Bracket
  | list
  | record
  deriving DecidableEq, Repr

/-- The bracket that closes. -/
def Bracket.closing : Bracket → Char
  | list => ']'
  | record => '}'

namespace Reading

/-- Takes the name of a field that is skipped, and the colon behind it. -/
def skipName : Reading Unit := do
  if (← front) = '"' then
    skipQuotation
    expect ':'
  else throw .malformed

/-- Gets to the next item inside open brackets, or closes them: the brackets that are still open.
A comma is needed where an item stands in front. -/
def skipBetween : Bool → List Bracket → Reading (List Bracket)
  | _, [] => return []
  | behindItem, bracket :: outer => do
    let c ← front
    if c = bracket.closing then
      let _ ← next
      skipBetween true outer
    else if behindItem && c ≠ ',' then throw .malformed
    else
      if behindItem then let _ ← next
      if bracket = .record then skipName
      return bracket :: outer

/-- Skips values until no bracket is open. -/
def skipWithin : List Char → List Bracket → Reading Unit
  | [], _ => throw .truncated
  | _ :: bound, brackets => do
    let c ← front
    let (opened, brackets) ←
      if c = '[' then do
        let _ ← next
        pure (true, Bracket.list :: brackets)
      else if c = '{' then do
        let _ ← next
        pure (true, Bracket.record :: brackets)
      else if c = '"' then do
        skipQuotation
        pure (false, brackets)
      else if c = '-' || c.isDigit then do
        let _ ← numeral .malformed
        pure (false, brackets)
      else
        match wordFrom? c with
        | some w => do
          word w
          pure (false, brackets)
        | none => throw .malformed
    match ← skipBetween (!opened) brackets with
    | [] => return ()
    | brackets => skipWithin bound brackets

/-- Skips a value. Every round takes at least one character, so the text bounds their number. -/
def skip : Reading Unit := do skipWithin (← get) []

/-- Refuses a value for its shape. -/
def refuse {α : Type} : Reading α := do
  let c ← front
  if c = '"' then
    let _ ← quotation
    throw .mismatch
  else if c = '-' || c.isDigit then
    let _ ← number
    throw .mismatch
  else if c = '[' || c = '{' then throw .mismatch
  else
    match wordFrom? c with
    | some w => do
      word w
      throw .mismatch
    | none => throw .malformed

/-- Takes a count. -/
def count : Reading UInt64 := do
  let c ← front
  if c = '-' || c.isDigit then
    match (← number).count? with
    | some n => return n
    | none => throw .mismatch
  else refuse

/-- Takes a text. -/
def text : Reading String := do
  if (← front) = '"' then quotation else refuse

/-- Takes a text that may be missing. -/
def optionalText : Reading (Option String) := do
  if (← front) = 'n' then
    word ['n', 'u', 'l', 'l']
    return none
  else
    return some (← text)

end Reading

end JackCompiler.Json
