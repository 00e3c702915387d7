/-!
# Bytes read as text

UTF-8 with replacement. A character that breaks off, and a byte that can open none, each give one
U+FFFD; the byte that broke a character off is read again as the first of the next. Reading is a
fold over the bytes that carries the text so far and the character under way.

        byte ──▶ a character under way?  ──no──▶ lead byte: whole character, or one under way
                 │ yes
                 ▼
            in the range due?  ──yes──▶ complete the character, or narrow what is due
                 │ no
                 ▼
            replacement, then the byte is read as a lead byte
-/

namespace JackCompiler.Utf8

/-- What stands for bytes that are no character. -/
def replacement : Char := '\uFFFD'

/-- A character under way: the bits read, the bytes still due, and the range of the next one. -/
structure Unfinished where
  bits : Nat
  due : Nat
  low : Nat
  high : Nat
  deriving DecidableEq, Repr

/-- A text under way, last character first, and the character under way, if any. -/
structure Decoder where
  text : List Char
  unfinished : Option Unfinished
  deriving DecidableEq, Repr

/-- Adds a character. -/
def Decoder.push (d : Decoder) (c : Char) : Decoder := ⟨c :: d.text, none⟩

/-- Reads a byte that opens a character. Over-long forms, surrogates and values past U+10FFFF are
kept out by the range of the second byte. -/
def Decoder.lead (d : Decoder) (byte : Nat) : Decoder :=
  if byte < 0x80 then d.push (Char.ofNat byte)
  else if byte < 0xC2 then d.push replacement
  else if byte < 0xE0 then ⟨d.text, some ⟨byte - 0xC0, 1, 0x80, 0xBF⟩⟩
  else if byte = 0xE0 then ⟨d.text, some ⟨0x0, 2, 0xA0, 0xBF⟩⟩
  else if byte = 0xED then ⟨d.text, some ⟨0xD, 2, 0x80, 0x9F⟩⟩
  else if byte < 0xF0 then ⟨d.text, some ⟨byte - 0xE0, 2, 0x80, 0xBF⟩⟩
  else if byte = 0xF0 then ⟨d.text, some ⟨0x0, 3, 0x90, 0xBF⟩⟩
  else if byte < 0xF4 then ⟨d.text, some ⟨byte - 0xF0, 3, 0x80, 0xBF⟩⟩
  else if byte = 0xF4 then ⟨d.text, some ⟨0x4, 3, 0x80, 0x8F⟩⟩
  else d.push replacement

/-- Reads one byte. -/
def Decoder.step (d : Decoder) (byte : UInt8) : Decoder :=
  match d.unfinished with
  | none => d.lead byte.toNat
  | some u =>
    if u.low ≤ byte.toNat ∧ byte.toNat ≤ u.high then
      let bits := u.bits * 64 + (byte.toNat - 0x80)
      if u.due ≤ 1 then d.push (Char.ofNat bits)
      else ⟨d.text, some ⟨bits, u.due - 1, 0x80, 0xBF⟩⟩
    else (d.push replacement).lead byte.toNat

/-- The text read, a character left under way counting as broken off. -/
def Decoder.finish (d : Decoder) : List Char :=
  match d.unfinished with
  | none => d.text.reverse
  | some _ => (replacement :: d.text).reverse

/-- The characters of a run of bytes. -/
def decode (bytes : List UInt8) : List Char :=
  (bytes.foldl Decoder.step ⟨[], none⟩).finish

/-- The bytes of a text. -/
def bytes (s : String) : List UInt8 := s.toUTF8.data.toList

end JackCompiler.Utf8
