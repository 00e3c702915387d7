/-!
# Blank characters

The Unicode property White_Space, and the cuts that texts make at it: trimming and splitting into
words.
-/

namespace JackCompiler

/-- The property White_Space: twenty-five characters. -/
def isBlank (c : Char) : Bool :=
  let n := c.toNat
  (9 ≤ n && n ≤ 13) || n == 0x20 || n == 0x85 || n == 0xA0 || n == 0x1680 ||
    (0x2000 ≤ n && n ≤ 0x200A) || n == 0x2028 || n == 0x2029 || n == 0x202F || n == 0x205F ||
    n == 0x3000

/-- A text without the blanks at its front. -/
def trimStart (s : List Char) : List Char := s.dropWhile isBlank

/-- A text without the blanks at its end. -/
def trimEnd (s : List Char) : List Char := (s.reverse.dropWhile isBlank).reverse

/-- One step of splitting into words: the words so far and the word under way, both last first. -/
def wordStep : List (List Char) × List Char → Char → List (List Char) × List Char
  | (done, word), c =>
    if isBlank c then (if word.isEmpty then (done, []) else (word.reverse :: done, []))
    else (done, c :: word)

/-- The words of a text: its longest runs without blanks. -/
def words (s : List Char) : List (List Char) :=
  let (done, word) := s.foldl wordStep ([], [])
  (if word.isEmpty then done else word.reverse :: done).reverse

end JackCompiler
