import JackCompiler.Syntax.Rendering
import Mathlib.Data.List.TakeDrop
/-!
# S-expressions

An S-expression is a word, a text between quotes or a list of S-expressions between parentheses,
with a space between two of them. A word ends where a space or a parenthesis follows and a text at
the next quote, so if no word has any of these in it, and no text a quote, what is written can be
told apart.

        (do (call Output.printString "(a b)"))        parentheses between quotes open no list
-/

namespace JackCompiler

/-- A word, a text between quotes, or a list. -/
inductive Sexp
  | word (text : String)
  | quoted (text : String)
  | list (items : List Sexp)
  deriving Repr

namespace Sexp

mutual

/-- Writes an S-expression in front of a text. -/
def write : Sexp → List Char → List Char
  | word text, rest => before text rest
  | quoted text, rest => '"' :: before text ('"' :: rest)
  | list [], rest => '(' :: ')' :: rest
  | list (x :: xs), rest => '(' :: x.write (writeSpaced xs (')' :: rest))

/-- Writes S-expressions, a space in front of each. -/
def writeSpaced : List Sexp → List Char → List Char
  | [], rest => rest
  | x :: xs, rest => ' ' :: x.write (writeSpaced xs rest)

end

mutual

/-- The words in an S-expression, in order. -/
def words : Sexp → List String
  | word text => [text]
  | quoted _ => []
  | list items => allWords items

/-- The words in S-expressions, in order. -/
def allWords : List Sexp → List String
  | [] => []
  | x :: xs => x.words ++ allWords xs

end

mutual

/-- The texts between quotes in an S-expression, in order. -/
def quotes : Sexp → List String
  | word _ => []
  | quoted text => [text]
  | list items => allQuotes items

/-- The texts between quotes in S-expressions, in order. -/
def allQuotes : List Sexp → List String
  | [] => []
  | x :: xs => x.quotes ++ allQuotes xs

end

theorem allWords_map_word (names : List String) : allWords (names.map word) = names := by
  induction names with
  | nil => rfl
  | cons name names ih => rw [List.map_cons, allWords, ih, words, List.singleton_append]

theorem allQuotes_map_word (names : List String) : allQuotes (names.map word) = [] := by
  induction names with
  | nil => rfl
  | cons name names ih => rw [List.map_cons, allQuotes, ih, quotes, List.nil_append]

/-! ### Words -/

/-- The characters that end a word. -/
def isMark (c : Char) : Bool := c == ' ' || c == '(' || c == ')' || c == '"'

theorem isMark_iff {c : Char} : isMark c ↔ c = ' ' ∨ c = '(' ∨ c = ')' ∨ c = '"' := by
  simp only [isMark, Bool.or_eq_true, beq_iff_eq, or_assoc]

/-- The text is a word: not empty, and without characters that end it. -/
def IsUnbroken (s : String) : Prop := s ≠ "" ∧ ∀ c ∈ s.toList, isMark c = false

instance (s : String) : Decidable (IsUnbroken s) :=
  -- the characters of the text are looked at, not all that there are
  haveI := List.decidableBAll (fun c => isMark c = false) s.toList
  inferInstanceAs (Decidable (_ ∧ _))

/-- Words put together are a word. -/
theorem IsUnbroken.append {s t : String} (h : IsUnbroken s) (h' : IsUnbroken t) :
    IsUnbroken (s ++ t) := by
  refine ⟨fun empty => h.1 ?_, ?_⟩
  · exact (String.append_eq_empty_iff.1 empty).1
  · rw [String.toList_append]
    exact List.forall_mem_append.2 ⟨h.2, h'.2⟩

/-- The text ends a word in front of it. -/
def Stops (rest : List Char) : Prop := ∀ c ∈ rest.head?, isMark c

theorem stops_nil : Stops [] := nofun

theorem stops_cons {c : Char} {rest : List Char} (h : isMark c) : Stops (c :: rest) := by
  rintro _ ⟨⟩
  exact h

/-- Characters up to the first of those that end them are told by the whole text. -/
theorem append_inj_of_ends (ends : Char → Bool) {s t : String} {rest rest' : List Char}
    (inside : ∀ c ∈ s.toList, ends c = false) (inside' : ∀ c ∈ t.toList, ends c = false)
    (stops : ∀ c ∈ rest.head?, ends c) (stops' : ∀ c ∈ rest'.head?, ends c)
    (same : s.toList ++ rest = t.toList ++ rest') : s = t ∧ rest = rest' := by
  have front {cs rest : List Char} (inside : ∀ c ∈ cs, ends c = false)
      (stops : ∀ c ∈ rest.head?, ends c) : (cs ++ rest).takeWhile (!ends ·) = cs := by
    have none : rest.takeWhile (!ends ·) = [] := by
      cases rest with
      | nil => rfl
      | cons c rest => exact List.takeWhile_cons_of_neg (by simpa using stops c rfl)
    rw [List.takeWhile_append_of_pos fun c hc => by simp [inside c hc], none, List.append_nil]
  have word : s.toList = t.toList := by rw [← front inside stops, same, front inside' stops']
  rw [word, List.append_cancel_left_eq] at same
  exact ⟨String.toList_inj.1 word, same⟩

/-- No word begins with a character that ends it. -/
theorem IsUnbroken.append_ne {s : String} (h : IsUnbroken s) {c : Char} (mark : isMark c)
    (rest rest' : List Char) : s.toList ++ rest ≠ c :: rest' := by
  intro same
  cases chars : s.toList with
  | nil => exact h.1 (String.toList_eq_nil_iff.1 chars)
  | cons d cs =>
    rw [chars, List.cons_append, List.cons.injEq] at same
    have other := h.2 d (by simp [chars])
    rw [same.1, mark] at other
    cases other

/-- A text without a quote ends in front of one. -/
theorem quoted_inj {s t : String} {rest rest' : List Char} (h : '"' ∉ s.toList)
    (h' : '"' ∉ t.toList) (same : s.toList ++ '"' :: rest = t.toList ++ '"' :: rest') :
    s = t ∧ '"' :: rest = '"' :: rest' := by
  refine append_inj_of_ends (· == '"') (fun c hc => ?_) (fun c hc => ?_) ?_ ?_ same
  · simpa using ne_of_mem_of_not_mem hc h
  · simpa using ne_of_mem_of_not_mem hc h'
  all_goals simp

/-! ### What is written tells what it is -/

/-- The words are words, and the texts between quotes have none in them. -/
structure Solid (x : Sexp) : Prop where
  words : ∀ w ∈ x.words, IsUnbroken w
  quotes : ∀ t ∈ x.quotes, '"' ∉ t.toList

variable {x : Sexp} {xs : List Sexp}

theorem solid_cons : (list (x :: xs)).Solid ↔ x.Solid ∧ (list xs).Solid := by
  constructor
  · rintro ⟨all, texts⟩
    obtain ⟨first, rest⟩ := List.forall_mem_append.1 all
    obtain ⟨text, more⟩ := List.forall_mem_append.1 texts
    exact ⟨⟨first, text⟩, ⟨rest, more⟩⟩
  · rintro ⟨first, rest⟩
    exact ⟨List.forall_mem_append.2 ⟨first.words, rest.words⟩,
      List.forall_mem_append.2 ⟨first.quotes, rest.quotes⟩⟩

theorem Solid.unbroken {s : String} (h : (word s).Solid) : IsUnbroken s := h.words s (.head _)

theorem Solid.unquoted {s : String} (h : (quoted s).Solid) : '"' ∉ s.toList := h.quotes s (.head _)

theorem stops_spaced (xs : List Sexp) (rest : List Char) :
    Stops (writeSpaced xs (')' :: rest)) := by
  cases xs with
  | nil => exact stops_cons rfl
  | cons x xs => exact stops_cons rfl

theorem Solid.write_ne_close (h : x.Solid) (rest rest' : List Char) :
    x.write rest ≠ ')' :: rest' := by
  cases x with
  | word s => exact h.unbroken.append_ne rfl _ _
  | quoted s => exact fun same => absurd (List.cons.inj same).1 (by decide)
  | list items =>
    cases items <;> exact fun same => absurd (List.cons.inj same).1 (by decide)

mutual

/-- **What is written tells the S-expression**, whatever follows that ends a word. -/
theorem write_injective : ∀ {x y : Sexp} {rest rest' : List Char}, x.Solid → y.Solid →
    Stops rest → Stops rest' → x.write rest = y.write rest' → x = y ∧ rest = rest'
  | word s, word t, _, _, h, h', stops, stops', same => by
    obtain ⟨rfl, behind⟩ := append_inj_of_ends isMark h.unbroken.2 h'.unbroken.2 stops stops' same
    exact ⟨rfl, behind⟩
  | quoted s, quoted t, _, _, h, h', _, _, same => by
    obtain ⟨rfl, behind⟩ := quoted_inj h.unquoted h'.unquoted (List.cons.inj same).2
    exact ⟨rfl, (List.cons.inj behind).2⟩
  | list [], list [], _, _, _, _, _, _, same => ⟨rfl, by simpa [write] using same⟩
  | list (x :: xs), list (y :: ys), _, _, h, h', _, _, same => by
    obtain ⟨first, others⟩ := solid_cons.1 h
    obtain ⟨first', others'⟩ := solid_cons.1 h'
    rw [write, write, List.cons.injEq] at same
    obtain ⟨rfl, behind⟩ :=
      write_injective first first' (stops_spaced xs _) (stops_spaced ys _) same.2
    obtain ⟨rfl, rest⟩ := writeSpaced_injective others others' behind
    exact ⟨rfl, rest⟩
  | list [], list (y :: ys), _, _, _, h', _, _, same => by
    rw [write, write, List.cons.injEq] at same
    exact absurd same.2.symm ((solid_cons.1 h').1.write_ne_close _ _)
  | list (x :: xs), list [], _, _, h, _, _, _, same => by
    rw [write, write, List.cons.injEq] at same
    exact absurd same.2 ((solid_cons.1 h).1.write_ne_close _ _)
  | word s, quoted t, _, _, h, _, _, _, same => absurd same (h.unbroken.append_ne rfl _ _)
  | quoted s, word t, _, _, _, h', _, _, same => absurd same.symm (h'.unbroken.append_ne rfl _ _)
  | word s, list [], _, _, h, _, _, _, same => absurd same (h.unbroken.append_ne rfl _ _)
  | word s, list (y :: ys), _, _, h, _, _, _, same => absurd same (h.unbroken.append_ne rfl _ _)
  | list [], word t, _, _, _, h', _, _, same => absurd same.symm (h'.unbroken.append_ne rfl _ _)
  | list (x :: xs), word t, _, _, _, h', _, _, same =>
    absurd same.symm (h'.unbroken.append_ne rfl _ _)
  | quoted s, list [], _, _, _, _, _, _, same => absurd (List.cons.inj same).1 (by decide)
  | quoted s, list (y :: ys), _, _, _, _, _, _, same => absurd (List.cons.inj same).1 (by decide)
  | list [], quoted t, _, _, _, _, _, _, same => absurd (List.cons.inj same).1 (by decide)
  | list (x :: xs), quoted t, _, _, _, _, _, _, same => absurd (List.cons.inj same).1 (by decide)

/-- So do S-expressions up to the parenthesis that closes a list. -/
theorem writeSpaced_injective : ∀ {xs ys : List Sexp} {rest rest' : List Char}, (list xs).Solid →
    (list ys).Solid → writeSpaced xs (')' :: rest) = writeSpaced ys (')' :: rest') →
      xs = ys ∧ rest = rest'
  | [], [], _, _, _, _, same => ⟨rfl, by simpa [writeSpaced] using same⟩
  | x :: xs, y :: ys, _, _, h, h', same => by
    obtain ⟨first, others⟩ := solid_cons.1 h
    obtain ⟨first', others'⟩ := solid_cons.1 h'
    rw [writeSpaced, writeSpaced, List.cons.injEq] at same
    obtain ⟨rfl, behind⟩ :=
      write_injective first first' (stops_spaced xs _) (stops_spaced ys _) same.2
    obtain ⟨rfl, rest⟩ := writeSpaced_injective others others' behind
    exact ⟨rfl, rest⟩
  | [], y :: ys, _, _, _, _, same => absurd (List.cons.inj same).1 (by decide)
  | x :: xs, [], _, _, _, _, same => absurd (List.cons.inj same).1 (by decide)

end

end Sexp

end JackCompiler
