import JackCompiler.Proofs.Stack.Spelling
import JackCompiler.Proofs.Text.Words
import JackCompiler.Stack.Chunk
import Mathlib.Data.List.Infix
/-!
# Reading what is written

A chunk is written one instruction to a line, and reading the text gives the chunk back. Numbers
and commands take care of themselves. A name has to stand in its line as one word, and nothing may
be popped into a constant. This is also needed: whatever a text looks like, the names read from it
are words of its lines, so a chunk with another name is not among the chunks that are read.

        instruction  ──words──▶  "push" "local" "0"  ──spaces──▶  push local 0 ⏎
             ▲                                                          │
             └────────────── words, no comment ◀── lines ◀──────────────┘
-/

namespace JackCompiler

/-! ### Words of a line -/

/-- The text stands in a line as one word: it is not empty, no blank breaks it, and no two slashes
open a comment in it. -/
structure IsWord (s : String) : Prop where
  nonempty : s ≠ ""
  unbroken : ∀ c ∈ s.toList, isBlank c = false
  uncommented : ¬ ['/', '/'] <:+: s.toList

/-- A character that can stand anywhere in a word: in ASCII, behind the space, and no slash. -/
def IsWordChar (c : Char) : Prop := 0x20 < c.toNat ∧ c.toNat < 0x80 ∧ c ≠ '/'

instance (c : Char) : Decidable (IsWordChar c) := inferInstanceAs (Decidable (_ ∧ _ ∧ _))

theorem IsWordChar.not_blank {c : Char} (h : IsWordChar c) : isBlank c = false := by
  obtain ⟨low, high, -⟩ := h
  simp [isBlank]
  omega

/-- The text is not empty, and has no other characters than these. -/
structure IsSolid (s : String) : Prop where
  nonempty : s ≠ ""
  chars : ∀ c ∈ s.toList, IsWordChar c

theorem isSolid_iff {s : String} : IsSolid s ↔ s ≠ "" ∧ ∀ c ∈ s.toList, IsWordChar c :=
  ⟨fun h => ⟨h.nonempty, h.chars⟩, fun h => ⟨h.1, h.2⟩⟩

instance (s : String) : Decidable (IsSolid s) :=
  -- the characters of the text are looked at, not all that there are
  haveI := List.decidableBAll IsWordChar s.toList
  decidable_of_iff _ isSolid_iff.symm

theorem IsSolid.isWord {s : String} (h : IsSolid s) : IsWord s where
  nonempty := h.nonempty
  unbroken c hc := (h.chars c hc).not_blank
  uncommented inside := (h.chars '/' (inside.subset (.head _))).2.2 rfl

theorem IsSolid.append {s t : String} (hs : IsSolid s) (ht : IsSolid t) : IsSolid (s ++ t) where
  nonempty empty := by simp [hs.nonempty] at empty
  chars c hc := by
    rw [String.toList_append, List.mem_append] at hc
    exact hc.elim (hs.chars c) (ht.chars c)

/-- Digits are solid. -/
theorem IsDigits.isSolid {s : String} (h : IsDigits s) : IsSolid s := by
  refine ⟨h.1, fun c hc => ?_⟩
  have digit : c.isDigit := h.2 c hc
  rw [Char.isDigit, Bool.and_eq_true, decide_eq_true_eq, decide_eq_true_eq] at digit
  have low : 48 ≤ c.toNat := UInt32.le_iff_toNat_le.1 digit.1
  have high : c.toNat ≤ 57 := UInt32.le_iff_toNat_le.1 digit.2
  refine ⟨by omega, by omega, ?_⟩
  rintro rfl
  exact absurd low (by decide)

/-- A property of words passes to the line, if it passes to what a space joins. -/
theorem forall_intercalate {Q : List Char → Prop} (nil : Q [])
    (append : ∀ {a b}, Q a → Q b → Q (a ++ ' ' :: b)) :
    ∀ (ws : List (List Char)), (∀ w ∈ ws, Q w) → Q ([' '].intercalate ws)
  | [], _ => nil
  | [w], h => by
    rw [List.intercalate_singleton]
    exact h w (.head _)
  | w :: v :: ws, h => by
    obtain ⟨first, rest⟩ := List.forall_mem_cons.1 h
    rw [List.intercalate_cons_cons, List.append_assoc]
    exact append first (forall_intercalate nil append _ rest)

/-! ### Comments -/

theorem slashes_infix_cons {c : Char} {s : List Char} :
    ['/', '/'] <:+: c :: s ↔ (c = '/' ∧ s.head? = some '/') ∨ ['/', '/'] <:+: s := by
  rw [List.infix_cons_iff, List.cons_prefix_cons, eq_comm]
  cases s with
  | nil => simp
  | cons d s => simp [eq_comm (a := d)]

/-- A comment opens on one side of another character. -/
theorem slashes_infix_append {c : Char} (other : c ≠ '/') {s rest : List Char} :
    ['/', '/'] <:+: s ++ c :: rest ↔ ['/', '/'] <:+: s ∨ ['/', '/'] <:+: rest := by
  induction s with
  | nil => simp [slashes_infix_cons, other]
  | cons d s ih =>
    have head : (s ++ c :: rest).head? = some '/' ↔ s.head? = some '/' := by
      cases s <;> simp [other]
    rw [List.cons_append, slashes_infix_cons, slashes_infix_cons, ih, head, or_assoc]

/-- Where no comment opens, nothing is cut off. -/
theorem Chunk.cutComment_eq {s : List Char} (h : ¬ ['/', '/'] <:+: s) (before : List Char) :
    cutComment before s = before.reverse ++ s := by
  fun_induction cutComment before s with
  | case1 before => simp
  | case2 before rest => exact absurd (slashes_infix_cons.2 (.inl ⟨rfl, rfl⟩)) h
  | case3 before c rest _ ih =>
    rw [ih fun inside => h (slashes_infix_cons.2 (.inr inside))]
    simp

/-- What is left in front of a comment has none. -/
theorem Chunk.cutComment_uncommented {before s : List Char} (h : ¬ ['/', '/'] <:+: before)
    (apart : ¬ (s.head? = some '/' ∧ before.head? = some '/')) :
    ¬ ['/', '/'] <:+: cutComment before s := by
  have turned (l : List Char) : ['/', '/'] <:+: l.reverse ↔ ['/', '/'] <:+: l := by
    rw [← List.reverse_infix, List.reverse_reverse]
    rfl
  fun_induction cutComment before s with
  | case1 before | case2 before _ => rwa [turned]
  | case3 before c rest other ih =>
    refine ih ?_ ?_
    · rw [slashes_infix_cons]
      rintro (both | inside)
      · exact apart (by simpa using both)
      · exact h inside
    · rintro ⟨next, slash⟩
      obtain ⟨rest, rfl⟩ := List.head?_eq_some_iff.1 next
      obtain rfl : c = '/' := by simpa using slash
      exact other rest rfl rfl

/-! ### Instructions -/

namespace Instruction

/-- The instruction is read again from what is written: its name is a word, and a place it pops into
is no constant. -/
def Legible : Instruction → Prop
  | pop segment _ => segment ≠ .constant
  | label name | goto name | ifGoto name | function name _ | call name _ => IsWord name
  | push .. | operate _ | giveBack => True

/-- The words of an instruction are words of its line. -/
theorem Legible.words {i : Instruction} (h : i.Legible) : ∀ w ∈ i.words, IsWord w := by
  have segment (s : Segment) : IsWord s.name := by
    have all : ∀ s ∈ Segment.all, IsSolid s.name := by decide +kernel
    exact (all s s.mem_all).isWord
  have operation (o : Operation) : IsWord o.name := by
    have all : ∀ o ∈ Operation.all, IsSolid o.name := by decide +kernel
    exact (all o o.mem_all).isWord
  have fixed {s : String} (h : IsSolid s) : IsWord s := h.isWord
  have number (n : UInt16) : IsWord (toString n) := (isDigits_toString n.toNat).isSolid.isWord
  cases i <;> simp only [Instruction.words, List.forall_mem_cons]
  case push s n => exact ⟨fixed (by decide +kernel), segment s, number n, by simp⟩
  case pop s n => exact ⟨fixed (by decide +kernel), segment s, number n, by simp⟩
  case operate o => exact ⟨operation o, by simp⟩
  case label => exact ⟨fixed (by decide +kernel), h, by simp⟩
  case goto => exact ⟨fixed (by decide +kernel), h, by simp⟩
  case ifGoto => exact ⟨fixed (by decide +kernel), h, by simp⟩
  case function n => exact ⟨fixed (by decide +kernel), h, number n, by simp⟩
  case call n => exact ⟨fixed (by decide +kernel), h, number n, by simp⟩
  case giveBack => exact ⟨fixed (by decide +kernel), by simp⟩

/-- An instruction is spelled by its words. -/
theorem Legible.spelled {i : Instruction} (h : i.Legible) : Spelled i.words i := by
  cases i with
  | push s n => exact .push s (isNumeral_toString n)
  | pop s n => exact .pop h (isNumeral_toString n)
  | operate o => exact .operate o
  | label name => exact .label name
  | goto name => exact .goto name
  | ifGoto name => exact .ifGoto name
  | function name n => exact .function name (isNumeral_toString n)
  | call name n => exact .call name (isNumeral_toString n)
  | giveBack => exact .giveBack

/-- The characters of the line of an instruction. -/
theorem toList_text (i : Instruction) :
    i.text.toList = [' '].intercalate (i.words.map String.toList) := by
  rw [text, String.toList_intercalate]
  rfl

/-- An instruction stands on one line. -/
theorem Legible.newline_notMem {i : Instruction} (h : i.Legible) : '\n' ∉ i.text.toList := by
  rw [toList_text]
  refine forall_intercalate (Q := ('\n' ∉ ·)) (by simp) (by simp +contextual) _ ?_
  rw [List.forall_mem_map]
  intro w hw newline
  exact absurd ((h.words w hw).unbroken _ newline) (by decide)

/-- The words of the line of an instruction are its words, and none is cut off. -/
theorem Legible.wordsOf {i : Instruction} (h : i.Legible) :
    wordsOf (Chunk.cutComment [] i.text.toList) = i.words := by
  have uncommented : ¬ ['/', '/'] <:+: i.text.toList := by
    rw [toList_text]
    refine forall_intercalate (Q := (¬ ['/', '/'] <:+: ·)) (by simp) (fun ha hb inside => ?_) _ ?_
    · exact ((slashes_infix_append (by decide)).1 inside).elim ha hb
    · rw [List.forall_mem_map]
      exact fun w hw => (h.words w hw).uncommented
  rw [Chunk.cutComment_eq uncommented, List.reverse_nil, List.nil_append, toList_text,
    Instruction.wordsOf, words_intercalate, List.map_map]
  · simp [Function.comp_def]
  · rw [List.forall_mem_map]
    intro w hw
    exact ⟨fun empty => (h.words w hw).nonempty (String.toList_eq_nil_iff.1 empty),
      (h.words w hw).unbroken⟩

end Instruction

/-! ### Instructions that are read -/

namespace Instruction

/-- The words in front of the comment of a line are words. -/
theorem isWord_of_mem_wordsOf {line : List Char} {w : String}
    (h : w ∈ wordsOf (Chunk.cutComment [] line)) : IsWord w := by
  obtain ⟨word, member, rfl⟩ := List.mem_map.1 h
  obtain ⟨nonempty, unblank, inside⟩ := mem_words member
  have uncommented : ¬ ['/', '/'] <:+: Chunk.cutComment [] line :=
    Chunk.cutComment_uncommented (by simp) (by simp)
  refine ⟨?_, ?_, ?_⟩
  · intro empty
    exact nonempty (String.ofList_eq_empty_iff.1 empty)
  · rwa [String.toList_ofList]
  · rw [String.toList_ofList]
    intro slashes
    exact uncommented (slashes.trans inside)

/-- An instruction that words spell is legible: a name in it is one of the words. -/
theorem Spelled.legible {words : List String} {i : Instruction} (h : Spelled words i)
    (all : ∀ w ∈ words, IsWord w) : i.Legible := by
  cases h with
  | pop place numeral => exact place
  | label name | goto name | ifGoto name | function name _ | call name _ => exact all name (by simp)
  | push | operate | giveBack => trivial

end Instruction

/-! ### Chunks -/

namespace Chunk

/-- The line of an instruction is read as that instruction. -/
theorem readLines_cons {i : Instruction} (h : i.Legible) (number : Nat)
    (lines : List (List Char)) (done : List Instruction) :
    readLines number (i.text.toList :: lines) done = readLines (number + 1) lines (i :: done) := by
  have words := h.wordsOf
  have read := Instruction.ofWords_eq_ok.2 h.spelled
  rw [readLines, words]
  cases spelled : i.words with
  | nil => cases i <;> cases spelled
  | cons word more =>
    rw [spelled] at read
    simp only [read]

/-- The lines of instructions are read as these instructions. -/
theorem readLines_eq {is : List Instruction} (h : ∀ i ∈ is, i.Legible) (number : Nat)
    (done : List Instruction) :
    readLines number (is.map (·.text.toList) ++ [[]]) done = .ok (done.reverse ++ is) := by
  induction is generalizing number done with
  | nil =>
    -- behind the last newline there is one more line, which is empty
    rw [List.append_nil]
    rfl
  | cons i is ih =>
    obtain ⟨first, rest⟩ := List.forall_mem_cons.1 h
    rw [List.map_cons, List.cons_append, readLines_cons first, ih rest]
    simp

/-- The lines of a chunk are the pieces of its text. -/
theorem pieces_text {c : Chunk} (h : ∀ i ∈ c.instructions, i.Legible) :
    pieces '\n' c.text.toList = c.instructions.map (·.text.toList) ++ [[]] := by
  obtain ⟨is⟩ := c
  rw [text, lines, List.map_map, String.toList_join]
  induction is with
  | nil => rfl
  | cons i is ih =>
    obtain ⟨first, rest⟩ := List.forall_mem_cons.1 h
    rw [List.map_cons, List.flatMap_cons, Function.comp_apply, String.toList_append,
      List.append_assoc]
    exact (pieces_append first.newline_notMem _).trans (congrArg _ (ih rest))

/-- **The text of a chunk is read as that chunk**, if its instructions are legible. -/
theorem parse_text {c : Chunk} (h : ∀ i ∈ c.instructions, i.Legible) : parse c.text = .ok c := by
  rw [parse, pieces_text h, readLines_eq h]
  rfl

/-- Lines are read as legible instructions. -/
theorem readLines_legible {number : Nat} {lines : List (List Char)} {done is : List Instruction}
    (h : readLines number lines done = .ok is) (before : ∀ i ∈ done, i.Legible) :
    ∀ i ∈ is, i.Legible := by
  induction lines generalizing number done with
  | nil =>
    cases h
    simpa using before
  | cons line lines ih =>
    have words : ∀ w ∈ Instruction.wordsOf (cutComment [] line), IsWord w := by
      intro w member
      exact Instruction.isWord_of_mem_wordsOf member
    rw [readLines] at h
    split at h
    · exact ih h before
    · next word more spelled =>
      rw [spelled] at words
      split at h
      · next i read =>
        have legible : i.Legible := (Instruction.ofWords_eq_ok.1 read).legible words
        exact ih h (List.forall_mem_cons.2 ⟨legible, before⟩)
      · cases h

/-- Whatever the text, a chunk that is read from it has legible instructions. -/
theorem legible_of_parse {text : String} {c : Chunk} (h : parse text = .ok c) :
    ∀ i ∈ c.instructions, i.Legible := by
  rw [parse] at h
  cases read : readLines 1 (pieces '\n' text.toList) [] with
  | error e =>
    rw [read] at h
    cases h
  | ok is =>
    rw [read] at h
    cases h
    exact readLines_legible read (by simp)

/-- **A chunk is read back from its text exactly if its instructions are legible.** So a chunk that
has been read from a text, however that was laid out, is read back from its own. -/
theorem parse_text_iff (c : Chunk) :
    (parse c.text = .ok c ↔ ∀ i ∈ c.instructions, i.Legible) ∧
      ∀ text, parse text = .ok c → parse c.text = .ok c := by
  refine ⟨⟨legible_of_parse, parse_text⟩, ?_⟩
  intro text read
  exact parse_text (legible_of_parse read)

/-- A sign, zeros, wide blanks, comments and empty lines are gone from the text that is written. -/
theorem loose_text_reread : ∃ c : Chunk,
    parse "// seven\r\n\tpush  constant +007// \r\n\r\n call A.f\u00a0 2" = .ok c ∧
      c.text = "push constant 7\ncall A.f 2\n" ∧ parse c.text = .ok c := by
  have read : parse "// seven\r\n\tpush  constant +007// \r\n\r\n call A.f\u00a0 2" =
      .ok ⟨[.push .constant 7, .call "A.f" 2]⟩ := by decide +kernel
  exact ⟨_, read, by decide +kernel, (parse_text_iff _).2 _ read⟩

end Chunk

end JackCompiler
