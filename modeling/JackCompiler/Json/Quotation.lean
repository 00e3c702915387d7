import JackCompiler.Json.Reading
/-!
# Strings in JSON

A string ends at the first quote that is not escaped, and holds no control character. An escape is a
letter, or `u` with four digits for a unit of sixteen bits. Units of the upper range come in pairs,
the high one first, and a pair is one character. Where only the extent of a string matters, units
need no partner.
-/

namespace JackCompiler.Json

/-- Where the reading of a string stands. -/
inductive Quotation
  /-- Between characters. -/
  | plain
  /-- Behind a backslash. -/
  | escape
  /-- Behind so many digits of a unit, behind a high unit if there is one. -/
  | hex (high : Option Nat) (count value : Nat)
  /-- Behind a high unit. -/
  | paired (high : Nat)
  /-- Behind a high unit and a backslash. -/
  | pairedEscape (high : Nat)
  deriving DecidableEq, Repr

/-- The character of a letter that is escaped. -/
def unescape? : Char → Option Char
  | '"' => some '"'
  | '\\' => some '\\'
  | '/' => some '/'
  | 'b' => some (Char.ofNat 8)
  | 'f' => some (Char.ofNat 12)
  | 'n' => some '\n'
  | 'r' => some '\r'
  | 't' => some '\t'
  | _ => none

/-- The value of a digit of base sixteen. -/
def hexValue? (c : Char) : Option Nat :=
  if c.isDigit then some (c.toNat - 48)
  else if 'a' ≤ c ∧ c ≤ 'f' then some (c.toNat - 87)
  else if 'A' ≤ c ∧ c ≤ 'F' then some (c.toNat - 55)
  else none

/-- Whether a unit is the first of a pair. -/
def isHigh (unit : Nat) : Bool := 0xD800 ≤ unit ∧ unit < 0xDC00

/-- Whether a unit is the second of a pair. -/
def isLow (unit : Nat) : Bool := 0xDC00 ≤ unit ∧ unit < 0xE000

/-- The character of a pair. -/
def pairUp (high low : Nat) : Char := Char.ofNat (0x10000 + (high - 0xD800) * 0x400 + (low - 0xDC00))

/-- What a unit gives: the next state, and the character if there is one. -/
def closeUnit (paired : Bool) (high : Option Nat) (unit : Nat) :
    Except Fault (Quotation × Option Char) :=
  if !paired then .ok (.plain, none)
  else
    match high with
    | some h => if isLow unit then .ok (.plain, some (pairUp h unit)) else .error .malformed
    | none =>
      if isLow unit then .error .malformed
      else if isHigh unit then .ok (.paired unit, none)
      else .ok (.plain, some (Char.ofNat unit))

/-- The fault of a character that is no digit. Four bytes are taken before they are looked at. -/
def hexFault (count : Nat) (c : Char) (rest : List Char) : Fault :=
  if (c :: rest.take 4).foldl (fun n d => n + d.utf8Size) count < 4 then .truncated else .malformed

/-- The state behind a character that is no closing quote, and the character that it completes. -/
def Quotation.step (paired : Bool) (state : Quotation) (c : Char) (rest : List Char) :
    Except Fault (Quotation × Option Char) :=
  match state with
  | .plain =>
    if c = '\\' then .ok (.escape, none)
    else if c.toNat < 32 then .error .malformed
    else .ok (.plain, some c)
  | .escape =>
    if c = 'u' then .ok (.hex none 0 0, none)
    else
      match unescape? c with
      | some d => .ok (.plain, some d)
      | none => .error .malformed
  | .hex high count value =>
    match hexValue? c with
    | none => .error (hexFault count c rest)
    | some d =>
      if count = 3 then closeUnit paired high (16 * value + d)
      else .ok (.hex high (count + 1) (16 * value + d), none)
  | .paired high => if c = '\\' then .ok (.pairedEscape high, none) else .error .malformed
  | .pairedEscape high => if c = 'u' then .ok (.hex (some high) 0 0, none) else .error .malformed

/-- Reads a string from a state to its closing quote. The characters read stand last first. -/
def Quotation.run (paired : Bool) : Quotation → List Char → List Char →
    Except Fault (List Char × List Char)
  | _, _, [] => .error .truncated
  | state, done, c :: rest =>
    if state = .plain ∧ c = '"' then .ok (done, rest)
    else
      match state.step paired c rest with
      | .error e => .error e
      | .ok (state, none) => run paired state done rest
      | .ok (state, some d) => run paired state (d :: done) rest

/-- Takes a string. -/
def quotation : Reading String := do
  let _ ← Reading.next
  fun text => do
    let (done, rest) ← Quotation.run true .plain [] text
    return (String.ofList done.reverse, rest)

/-- Takes a string for its extent. -/
def skipQuotation : Reading Unit := do
  let _ ← Reading.next
  fun text => do
    let (_, rest) ← Quotation.run false .plain [] text
    return ((), rest)

end JackCompiler.Json
