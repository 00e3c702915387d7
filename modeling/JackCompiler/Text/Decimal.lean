/-!
# Decimal numbers

Numbers are read from runs of decimal digits, with any number of zeros in front. A word is a number
below 65536, and may have one plus sign in front.
-/

namespace JackCompiler.Decimal

/-- The value of a decimal digit. -/
def digit? (c : Char) : Option Nat :=
  if '0' ≤ c ∧ c ≤ '9' then some (c.toNat - '0'.toNat) else none

/-- Reads on with the value of the digits in front. -/
def readOnto : Nat → List Char → Option Nat
  | value, [] => some value
  | value, c :: rest =>
    match digit? c with
    | some d => readOnto (value * 10 + d) rest
    | none => none

/-- The number that a run of digits denotes. -/
def natural? : List Char → Option Nat
  | [] => none
  | digits => readOnto 0 digits

/-- The word that a text denotes. -/
def word? (s : List Char) : Option UInt16 :=
  let digits := match s with
    | '+' :: rest => rest
    | _ => s
  match natural? digits with
  | some n => if n < 65536 then some (UInt16.ofNat n) else none
  | none => none

end JackCompiler.Decimal
