import JackCompiler.Json.Reading
/-!
# Numbers in JSON

A number is a sign, digits without needless zeros in front, and possibly a fraction and a power of
ten. It counts as a double, and one beyond the doubles is no number: the digits that fit in a word
are rounded to a double, the power of ten is too, and the product must be finite.
-/

namespace JackCompiler.Json

/-- A number as it is written. -/
structure Numeral where
  negative : Bool
  /-- The digits in front of the point. -/
  whole : List Nat
  /-- The digits behind the point, or none where there is no point. -/
  fraction : List Nat
  exponent : Option Int
  deriving DecidableEq, Repr

/-- The value of a digit. -/
def digitValue (c : Char) : Nat := c.toNat - 48

/-- Takes digits, at least one. Where there is none, the end of the text may be a fault of its own. -/
def digits (atEnd : Fault) : Reading (List Nat) := fun text =>
  match text with
  | [] => .error atEnd
  | c :: rest =>
    if c.isDigit then
      .ok (((c :: rest).takeWhile Char.isDigit).map digitValue, rest.dropWhile Char.isDigit)
    else .error .malformed

/-- The value of some digits. -/
def valueOf (ds : List Nat) : Nat := ds.foldl (fun n d => 10 * n + d) 0

/-- Takes one of two letters. -/
def acceptEither (c d : Char) : Reading Bool := do
  if ← Reading.accept c then return true else Reading.accept d

/-- Takes a power of ten. -/
def exponent (atEnd : Fault) : Reading (Option Int) := do
  if ← acceptEither 'e' 'E' then
    if ← Reading.accept '-' then
      return some (-(valueOf (← digits atEnd) : Int))
    else
      let _ ← Reading.accept '+'
      return some (valueOf (← digits atEnd))
  else return none

/-- Takes a number. -/
def numeral (atEnd : Fault) : Reading Numeral := do
  let negative ← Reading.accept '-'
  let whole ← digits atEnd
  if whole.head? = some 0 ∧ 1 < whole.length then throw .malformed
  let fraction ← if ← Reading.accept '.' then digits atEnd else pure []
  return ⟨negative, whole, fraction, ← exponent atEnd⟩

/-- The largest number in a word. -/
def largestWord : Nat := UInt64.size - 1

/-- Puts digits behind a number as long as it fits in a word: the number, and how many digits are
left out. -/
def keep (n : Nat) : List Nat → Nat × Nat
  | [] => (n, 0)
  | d :: ds => if 10 * n + d ≤ largestWord then keep (10 * n + d) ds else (n, ds.length + 1)

/-- The double nearest to a number, the even one of two. -/
def toDouble (n : Nat) : Nat :=
  let unit := Nat.pow 2 (n.log2 - 52)
  let quotient := n / unit
  let remainder := n % unit
  let up := unit < 2 * remainder || (unit = 2 * remainder && quotient % 2 = 1)
  (if up then quotient + 1 else quotient) * unit

/-- The least number that is rounded beyond the doubles. -/
def infinite : Nat := Nat.pow 2 1024 - Nat.pow 2 970

/-- The largest power of ten that is a double. -/
def largestPower : Int := 308

/-- Whether a number is beyond the doubles. -/
def Numeral.isHuge (n : Numeral) : Bool :=
  let (front, dropped) := keep 0 n.whole
  let (significand, ignored) := keep front n.fraction
  let power : Int := dropped - (n.fraction.length - ignored : Nat) + n.exponent.getD 0
  if significand = 0 ∨ power < 0 then false
  else if largestPower < power then true
  else infinite ≤ toDouble significand * toDouble (Nat.pow 10 power.toNat)

/-- The count that a number gives: a whole number that fits in a word, without a sign. -/
def Numeral.count? (n : Numeral) : Option UInt64 :=
  if n.negative ∨ n.fraction ≠ [] ∨ n.exponent.isSome ∨ (keep 0 n.whole).2 ≠ 0 then none
  else some (UInt64.ofNat (valueOf n.whole))

/-- Takes a number that is a double. -/
def number : Reading Numeral := do
  let n ← numeral .truncated
  if n.isHuge then throw .malformed else return n

end JackCompiler.Json
