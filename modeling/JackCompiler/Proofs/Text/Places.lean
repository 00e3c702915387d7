import JackCompiler.Text.Position
import Mathlib.Data.List.Count
import Mathlib.Data.List.Induction
/-!
# Places told by their bytes

A place is counted on byte by byte while a text is read. Told from the text itself, its line is one
more than the newlines in front of it, and its column one more than the bytes since the last of them.

        a b \n c d │ e        three bytes in front since the newline: line 2, column 3, offset 5
-/

namespace JackCompiler

namespace Position

/-- The place of a byte of a text: the newlines in front of it, and the bytes since the last. -/
def locate (text : List UInt8) (offset : Nat) : Position :=
  ⟨1 + (text.take offset).count newline,
    1 + ((text.take offset).reverse.takeWhile (· ≠ newline)).length, offset⟩

/-- The place behind what has been read is told by that alone. -/
theorem advance_start (w : List UInt8) :
    start.advance w = ⟨1 + w.count newline, 1 + (w.reverse.takeWhile (· ≠ newline)).length,
      w.length⟩ := by
  induction w using List.reverseRecOn with
  | nil => rfl
  | append_singleton w b ih =>
    rw [advance_append, ih]
    by_cases line : b = newline
    · subst line
      simp [advance, next, Nat.add_assoc]
    · simp [advance, next, line, List.count_append, Nat.add_comm]

/-- Reading the front of a text leads to the place of the byte behind it. -/
theorem advance_eq_locate {w text : List UInt8} (h : w <+: text) :
    start.advance w = locate text w.length := by
  obtain ⟨rest, rfl⟩ := h
  rw [advance_start, locate, List.take_left]

/-- The place is that of a byte of a text, or of its end. -/
structure Within (text : List UInt8) (p : Position) : Prop where
  offset_le : p.offset ≤ text.length
  located : p = locate text p.offset

theorem locate_within {text : List UInt8} {offset : Nat} (h : offset ≤ text.length) :
    (locate text offset).Within text := ⟨h, rfl⟩

/-- Every text has a place in front of its first byte. -/
theorem start_within (text : List UInt8) : start.Within text := ⟨Nat.zero_le _, rfl⟩

end Position

end JackCompiler
