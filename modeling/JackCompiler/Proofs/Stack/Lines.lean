import JackCompiler.Proofs.Stack.Rereading
import Mathlib.Data.List.ReduceOption
/-!
# Lines of instructions

A text is read line by line. Of a line only that counts what stands in front of its comment: nothing
or the words of an instruction with blanks around them. So a text of lines that are laid out like
this is read as their instructions, whatever the blanks, the comments, the numerals and the ends of
the lines are. The first line that is not laid out like this is the one that is reported, with the
error that it gives by itself.

        // squares ↵               a comment
          push  constant +007 ⏎    push constant 7
        ⏎                          nothing
        push local // x ⏎          line 4: 'push' takes 2 operand(s), found 1
-/

namespace JackCompiler

/-! ### Lines of a text -/

/-- The lines of a text. A line ends in front of a newline or of a return and a newline. -/
inductive InLines : List Char → List (List Char) → Prop
  | last {line : List Char} (whole : '\n' ∉ line) : InLines line [line]
  | newline {line text : List Char} {lines : List (List Char)} (whole : '\n' ∉ line)
      (rest : InLines text lines) : InLines (line ++ '\n' :: text) (line :: lines)
  | returned {line text : List Char} {lines : List (List Char)} (whole : '\n' ∉ line)
      (rest : InLines text lines) : InLines (line ++ '\r' :: '\n' :: text) (line :: lines)

/-- Every text has lines. -/
theorem exists_inLines (text : List Char) : ∃ lines, InLines text lines := by
  induction text with
  | nil => exact ⟨[[]], .last (by simp)⟩
  | cons c text ih =>
    obtain ⟨lines, inLines⟩ := ih
    by_cases end_ : c = '\n'
    · subst end_
      exact ⟨[] :: lines, .newline List.not_mem_nil inLines⟩
    · have longer {line : List Char} (whole : '\n' ∉ line) : '\n' ∉ c :: line := by
        simp [whole, Ne.symm end_]
      cases inLines with
      | last whole => exact ⟨_, .last (longer whole)⟩
      | newline whole rest => exact ⟨_, .newline (longer whole) rest⟩
      | returned whole rest => exact ⟨_, .returned (longer whole) rest⟩

namespace Line

/-! ### What a line is laid out like -/

/-- What a line has in front of its comment, which the first two slashes open. -/
inductive IsCode : List Char → List Char → Prop
  | whole {line : List Char} (uncommented : ¬ ['/', '/'] <:+: line) : IsCode line line
  | before {code : List Char} (first : ¬ ['/', '/'] <:+: code ++ ['/']) (comment : List Char) :
      IsCode (code ++ '/' :: '/' :: comment) code

/-- What stands in front of a comment is blank, or spells an instruction. -/
inductive Denotes (code : List Char) : Option Instruction → Prop
  | blank (h : ∀ c ∈ code, isBlank c) : Denotes code none
  | instruction {ws : List String} {i : Instruction} (spaced : Spaced (ws.map String.toList) code)
      (spelled : Instruction.Spelled ws i) : Denotes code (some i)

/-- A line as one may lay it out: blank, only a comment, or the words of an instruction with blanks
around them and perhaps a comment that blanks set off. No word opens a comment. -/
inductive Laid : List Char → Option Instruction → Prop
  | blank {line : List Char} (h : ∀ c ∈ line, isBlank c) : Laid line none
  | comment {gap : List Char} (h : ∀ c ∈ gap, isBlank c) (comment : List Char) :
      Laid (gap ++ '/' :: '/' :: comment) none
  | instruction {line : List Char} {ws : List String} {i : Instruction}
      (spaced : Spaced (ws.map String.toList) line) (spelled : Instruction.Spelled ws i)
      (uncommented : ∀ w ∈ ws, ¬ ['/', '/'] <:+: w.toList) : Laid line (some i)
  | commented {code : List Char} {ws : List String} {i : Instruction} {c : Char}
      (spaced : Spaced (ws.map String.toList) (code ++ [c])) (apart : isBlank c)
      (spelled : Instruction.Spelled ws i) (uncommented : ∀ w ∈ ws, ¬ ['/', '/'] <:+: w.toList)
      (comment : List Char) : Laid (code ++ c :: '/' :: '/' :: comment) (some i)

/-- A line without its comment is neither blank nor an instruction. -/
def Faulty (line : List Char) : Prop := ∃ code, IsCode line code ∧ ∀ o, ¬ Denotes code o

variable {line code : List Char} {o : Option Instruction}

/-- Every line has something in front of its comment, if only nothing. -/
theorem exists_isCode (line : List Char) : ∃ code, IsCode line code := by
  induction line with
  | nil => exact ⟨[], .whole (by simp)⟩
  | cons c line ih =>
    by_cases opens : c = '/' ∧ line.head? = some '/'
    · obtain ⟨rfl, next⟩ := opens
      obtain ⟨comment, rfl⟩ := List.head?_eq_some_iff.1 next
      exact ⟨[], @IsCode.before [] (by decide) comment⟩
    · obtain ⟨code, isCode⟩ := ih
      cases isCode with
      | whole uncommented =>
        exact ⟨_, .whole fun h => (slashes_infix_cons.1 h).elim opens uncommented⟩
      | before first comment =>
        refine ⟨c :: code, @IsCode.before (c :: code) (fun h => ?_) comment⟩
        refine (slashes_infix_cons.1 h).elim (fun next => opens ⟨next.1, ?_⟩) first
        cases code with
        | nil => rfl
        | cons d code => exact next.2

theorem not_faulty (h : ¬ Faulty line) : ∃ code o, IsCode line code ∧ Denotes code o := by
  obtain ⟨code, isCode⟩ := exists_isCode line
  by_contra none
  exact h ⟨code, isCode, fun o denotes => none ⟨code, o, isCode, denotes⟩⟩

/-- A blank is no slash. -/
theorem ne_slash {c : Char} (h : isBlank c) : c ≠ '/' := by
  rintro rfl
  exact absurd h (by decide)

/-- No comment opens in blanks. -/
theorem uncommented_blanks {gap rest : List Char} (h : ∀ c ∈ gap, isBlank c)
    (uncommented : ¬ ['/', '/'] <:+: rest) : ¬ ['/', '/'] <:+: gap ++ rest := by
  induction gap with
  | nil => exact uncommented
  | cons c gap ih =>
    obtain ⟨hc, h⟩ := List.forall_mem_cons.1 h
    exact fun inside => (slashes_infix_cons.1 inside).elim (fun first => ne_slash hc first.1) (ih h)

/-- No comment opens in words with blanks around them, if none does in the words. -/
theorem uncommented_spaced {ws : List (List Char)} (h : Spaced ws code)
    (uncommented : ∀ w ∈ ws, ¬ ['/', '/'] <:+: w) : ¬ ['/', '/'] <:+: code := by
  induction h with
  | blanks blank => simpa using @uncommented_blanks _ [] blank (by decide)
  | @word gap w rest ws blank nonempty unbroken apart more ih =>
    obtain ⟨first, others⟩ := List.forall_mem_cons.1 uncommented
    rw [List.append_assoc]
    refine uncommented_blanks blank ?_
    cases rest with
    | nil => rwa [List.append_nil]
    | cons c rest =>
      have hc : isBlank c := apart c rfl
      rw [slashes_infix_append (ne_slash hc)]
      exact not_or.2 ⟨first, fun inside => ih others (slashes_infix_cons.2 (.inr inside))⟩

/-- A line that is laid out has in front of its comment what it is read as. -/
theorem Laid.denotes (h : Laid line o) : ∃ code, IsCode line code ∧ Denotes code o := by
  cases h with
  | blank h =>
    have uncommented := @uncommented_blanks _ [] h (by decide)
    exact ⟨line, .whole (by simpa using uncommented), .blank h⟩
  | comment h comment => exact ⟨_, .before (uncommented_blanks h (by decide)) comment, .blank h⟩
  | instruction spaced spelled uncommented =>
    refine ⟨line, .whole (uncommented_spaced spaced ?_), .instruction spaced spelled⟩
    rwa [List.forall_mem_map]
  | @commented code ws i c spaced apart spelled uncommented comment =>
    have none : ¬ ['/', '/'] <:+: code ++ [c] := by
      refine uncommented_spaced spaced ?_
      rwa [List.forall_mem_map]
    have first : ¬ ['/', '/'] <:+: (code ++ [c]) ++ ['/'] := by
      rw [slashes_infix_append (ne_slash apart)] at none
      rw [List.append_assoc, List.singleton_append, slashes_infix_append (ne_slash apart)]
      exact not_or.2 ⟨fun inside => none (.inl inside), by decide⟩
    refine ⟨code ++ [c], ?_, .instruction spaced spelled⟩
    simpa using IsCode.before first comment

/-! ### Reading one line -/

/-- Reading cuts the comment off. -/
theorem IsCode.cutComment_eq (h : IsCode line code) : Chunk.cutComment [] line = code := by
  cases h with
  | whole uncommented => exact Chunk.cutComment_eq uncommented []
  | before first comment =>
    have cut (before : List Char) :
        Chunk.cutComment before (code ++ '/' :: '/' :: comment) = before.reverse ++ code := by
      induction code generalizing before with
      | nil => simp [Chunk.cutComment]
      | cons c code ih =>
        rw [List.cons_append, slashes_infix_cons, not_or] at first
        rw [List.cons_append, Chunk.cutComment, ih first.2]
        · simp
        · rintro rest rfl next
          refine first.1 ⟨rfl, ?_⟩
          cases code with
          | nil => rfl
          | cons d code => cases next; rfl
    exact cut []

theorem Denotes.wordsOf_eq (h : Denotes code o) :
    (o = none ∧ Instruction.wordsOf code = []) ∨
      ∃ i, o = some i ∧ Instruction.Spelled (Instruction.wordsOf code) i := by
  cases h with
  | blank blank =>
    exact .inl ⟨rfl, by rw [Instruction.wordsOf, (Spaced.blanks blank).words_eq]; rfl⟩
  | @instruction ws i spaced spelled =>
    have same : Instruction.wordsOf code = ws := by
      rw [Instruction.wordsOf, spaced.words_eq, List.map_map]
      simp [Function.comp_def]
    exact .inr ⟨i, rfl, same ▸ spelled⟩

/-- Code without words is blank. -/
theorem denotes_of_wordsOf_nil (h : Instruction.wordsOf code = []) : Denotes code none := by
  have spaced : Spaced [] code := words_eq_iff.1 (List.map_eq_nil_iff.1 h)
  cases spaced with
  | blanks blank => exact .blank blank

/-- Words that spell an instruction denote it. -/
theorem denotes_of_spelled {i : Instruction}
    (h : Instruction.Spelled (Instruction.wordsOf code) i) : Denotes code (some i) := by
  refine .instruction ?_ h
  have same : (Instruction.wordsOf code).map String.toList = words code := by
    rw [Instruction.wordsOf, List.map_map]
    simp [Function.comp_def]
  exact words_eq_iff.1 same.symm

end Line

/-! ### Reading lines -/

namespace Chunk

variable {line line' code : List Char} {a b : List (List Char)}

/-- A line without a fault is read as what it denotes. -/
theorem readLines_denotes {o : Option Instruction} (isCode : Line.IsCode line code)
    (denotes : Line.Denotes code o) (number : Nat) (lines : List (List Char))
    (done : List Instruction) :
    readLines number (line :: lines) done = readLines (number + 1) lines (o.toList ++ done) := by
  rw [readLines, isCode.cutComment_eq]
  rcases denotes.wordsOf_eq with ⟨rfl, empty⟩ | ⟨i, rfl, spelled⟩
  · rw [empty]
    rfl
  · have read := Instruction.ofWords_eq_ok.2 spelled
    cases words : Instruction.wordsOf code with
    | nil => rw [words] at spelled; cases spelled
    | cons w ws =>
      rw [words] at read
      simp only [read]
      rfl

/-- A line with a fault ends the reading, with the error that it gives by itself. -/
theorem readLines_fault (isCode : Line.IsCode line code) (fault : ∀ o, ¬ Line.Denotes code o)
    (number : Nat) (lines : List (List Char)) (done : List Instruction) :
    ∃ e, Instruction.parse (String.ofList code) = .error e ∧
      readLines number (line :: lines) done = .error (number, e) := by
  have alone : Instruction.parse (String.ofList code) =
      Instruction.ofWords (Instruction.wordsOf code) := by
    rw [Instruction.parse, String.toList_ofList]
  cases read : Instruction.ofWords (Instruction.wordsOf code) with
  | ok i => exact absurd (Line.denotes_of_spelled (Instruction.ofWords_eq_ok.1 read)) (fault _)
  | error e =>
    refine ⟨e, alone.trans read, ?_⟩
    rw [readLines, isCode.cutComment_eq]
    cases words : Instruction.wordsOf code with
    | nil => exact absurd (Line.denotes_of_wordsOf_nil words) (fault _)
    | cons w ws =>
      rw [words] at read
      simp only [read]

/-- Lines with the same words in front of their comments are read alike. -/
theorem readLines_congr
    (same : Instruction.wordsOf (cutComment [] line) = Instruction.wordsOf (cutComment [] line'))
    (rest : ∀ number done, readLines number a done = readLines number b done) (number : Nat)
    (done : List Instruction) :
    readLines number (line :: a) done = readLines number (line' :: b) done := by
  rw [readLines, readLines, same]
  split
  · exact rest _ _
  · split
    · exact rest _ _
    · rfl

/-- A return at the end of a line is a blank, or stands in the comment. -/
theorem wordsOf_cutComment_return (line : List Char) :
    Instruction.wordsOf (cutComment [] (line ++ ['\r'])) =
      Instruction.wordsOf (cutComment [] line) := by
  have same (before : List Char) :
      words (cutComment before (line ++ ['\r'])) = words (cutComment before line) := by
    fun_induction cutComment before line with
    | case1 before =>
      have cut : cutComment before ['\r'] = before.reverse ++ ['\r'] := by simp [cutComment]
      rw [List.nil_append, cut, words_append (by decide)]
      exact List.append_nil _
    | case2 before comment => rfl
    | case3 before c rest other ih =>
      rw [List.cons_append, cutComment, ih]
      rintro comment rfl next
      cases rest with
      | nil => cases next
      | cons d rest =>
        cases next
        exact other rest rfl rfl
  rw [Instruction.wordsOf, Instruction.wordsOf, same]

/-- A text is read by its lines. -/
theorem readLines_pieces {text : List Char} {lines : List (List Char)} (h : InLines text lines)
    (number : Nat) (done : List Instruction) :
    readLines number (pieces '\n' text) done = readLines number lines done := by
  induction h generalizing number done with
  | last whole => rw [pieces_of_notMem whole]
  | newline whole rest ih =>
    rw [pieces_append whole]
    exact readLines_congr rfl ih number done
  | @returned line text lines whole rest ih =>
    have split : line ++ '\r' :: '\n' :: text = (line ++ ['\r']) ++ '\n' :: text := by simp
    rw [split, pieces_append (by simpa using whole)]
    exact readLines_congr (wordsOf_cutComment_return line) ih number done

/-- Lines that are laid out are read as their instructions. -/
theorem readLines_laid {lines : List (List Char)} {os : List (Option Instruction)}
    (h : List.Forall₂ Line.Laid lines os) (number : Nat) (done : List Instruction) :
    readLines number lines done = .ok (done.reverse ++ os.reduceOption) := by
  induction h generalizing number done with
  | nil => simp [readLines]
  | @cons line o lines os first _ ih =>
    obtain ⟨code, isCode, denotes⟩ := first.denotes
    rw [readLines_denotes isCode denotes, ih]
    cases o <;> simp

/-- Among lines of which one has a fault, the first that has one is reported. -/
theorem readLines_faulty {lines : List (List Char)} (h : ∃ line ∈ lines, Line.Faulty line)
    (number : Nat) (done : List Instruction) :
    ∃ before line after code e, lines = before ++ line :: after ∧
      (∀ l ∈ before, ¬ Line.Faulty l) ∧ Line.IsCode line code ∧ (∀ o, ¬ Line.Denotes code o) ∧
      Instruction.parse (String.ofList code) = .error e ∧
      readLines number lines done = .error (number + before.length, e) := by
  induction lines generalizing number done with
  | nil => simp at h
  | cons line lines ih =>
    by_cases faulty : Line.Faulty line
    · obtain ⟨code, isCode, fault⟩ := faulty
      obtain ⟨e, alone, read⟩ := readLines_fault isCode fault number lines done
      exact ⟨[], line, lines, code, e, rfl, by simp, isCode, fault, alone, read⟩
    · obtain ⟨code, o, isCode, denotes⟩ := Line.not_faulty faulty
      have later : ∃ line ∈ lines, Line.Faulty line := by simpa [faulty] using h
      obtain ⟨before, bad, after, code', e, rfl, sound, isCode', fault, alone, read⟩ :=
        ih later (number + 1) (o.toList ++ done)
      refine ⟨line :: before, bad, after, code', e, rfl, ?_, isCode', fault, alone, ?_⟩
      · exact List.forall_mem_cons.2 ⟨faulty, sound⟩
      · rw [readLines_denotes isCode denotes, read, List.length_cons]
        congr 2
        omega

/-- **A text is read line by line.** Lines laid out are read as their instructions in order.
If some line has a fault, the first such line is reported by its number, with the error that what it
has in front of its comment gives alone. -/
theorem parse_lines (text : String) :
    (∃ lines, InLines text.toList lines) ∧ ∀ lines, InLines text.toList lines →
      (∀ os, List.Forall₂ Line.Laid lines os → parse text = .ok ⟨os.reduceOption⟩) ∧
      ((∃ line ∈ lines, Line.Faulty line) → ∃ before line after code e,
        lines = before ++ line :: after ∧ (∀ l ∈ before, ¬ Line.Faulty l) ∧
        Line.IsCode line code ∧ (∀ o, ¬ Line.Denotes code o) ∧
        Instruction.parse (String.ofList code) = .error e ∧
        parse text = .error (before.length + 1, e)) := by
  refine ⟨exists_inLines _, fun lines inLines => ⟨fun os laid => ?_, fun faulty => ?_⟩⟩
  · rw [parse, readLines_pieces inLines, readLines_laid laid]
    rfl
  · obtain ⟨before, line, after, code, e, split, sound, isCode, fault, alone, read⟩ :=
      readLines_faulty faulty 1 []
    refine ⟨before, line, after, code, e, split, sound, isCode, fault, alone, ?_⟩
    rw [parse, readLines_pieces inLines, read, Nat.add_comm]
    rfl

/-- A comment, an empty line, wide blanks, a numeral with a sign and zeros, two ends of lines. -/
def tidyLines : List (List Char) :=
  ["// seven", "\tpush constant\u00a0+007 // VII", "", "add"].map String.toList

/-- An operand is missing in front of the comment, and behind that line is another fault. -/
def faultyLines : List (List Char) := ["add", "push local // 0", "dup"].map String.toList

/-- Lines as they may be are read, and of two faults the first is reported. -/
theorem tidyLines_parse :
    (let text := "// seven\r\n\tpush constant\u00a0+007 // VII\n\nadd"
    let os := [none, some (.push .constant 7), none, some (.operate .add)]
    InLines text.toList tidyLines ∧ List.Forall₂ Line.Laid tidyLines os ∧
      parse text = .ok ⟨os.reduceOption⟩) ∧
    let text := "add\r\npush local // 0\ndup"
    InLines text.toList faultyLines ∧ (∃ line ∈ faultyLines, Line.Faulty line) ∧
      ∃ before line after, faultyLines = before ++ line :: after ∧
        (∀ l ∈ before, ¬ Line.Faulty l) ∧ Line.Faulty line ∧ before.length + 1 = 2 ∧
        parse text = .error (2, .operandCount "push" 2 1) := by
  refine ⟨?_, ?_⟩
  · intro text os
    have chars : text.toList = "// seven".toList ++ '\r' :: '\n' ::
        ("\tpush constant\u00a0+007 // VII".toList ++ '\n' ::
          ([] ++ '\n' :: "add".toList)) := by decide
    have inLines : InLines text.toList tidyLines := by
      rw [chars]
      exact .returned (by decide) (.newline (by decide) (.newline (by decide) (.last (by decide))))
    have digits : IsDigits "007" := ⟨by decide, List.all_eq_true.1 (by decide)⟩
    have seven : IsNumeral "+007" 7 := ⟨"007", digits, by decide, .inr rfl⟩
    have push : Line.Laid "\tpush constant\u00a0+007 // VII".toList (some (.push .constant 7)) :=
      @Line.Laid.commented "\tpush constant\u00a0+007".toList ["push", "constant", "+007"] _ ' '
        (words_eq_iff.1 (by decide)) (by decide) (.push .constant seven) (by decide) " VII".toList
    have add : Line.Laid "add".toList (some (.operate .add)) :=
      @Line.Laid.instruction _ ["add"] _ (words_eq_iff.1 (by decide)) (.operate .add) (by decide)
    have laid : List.Forall₂ Line.Laid tidyLines os :=
      .cons (@Line.Laid.comment [] (List.forall_mem_nil _) " seven".toList)
        (.cons push (.cons (.blank (List.forall_mem_nil _)) (.cons add .nil)))
    exact ⟨inLines, laid, ((parse_lines text).2 tidyLines inLines).1 os laid⟩
  · intro text
    have chars : text.toList = "add".toList ++ '\r' :: '\n' ::
        ("push local // 0".toList ++ '\n' :: "dup".toList) := by decide
    have inLines : InLines text.toList faultyLines := by
      rw [chars]
      exact .returned (by decide) (.newline (by decide) (.last (by decide)))
    have unspelled : ∀ o, ¬ Line.Denotes "push local ".toList o := by
      intro o denotes
      have spelled := denotes.wordsOf_eq
      have words : Instruction.wordsOf "push local ".toList = ["push", "local"] := by decide
      rw [words] at spelled
      rcases spelled with ⟨-, nil⟩ | ⟨i, -, spelled⟩
      · cases nil
      · have refused : Instruction.ofWords ["push", "local"] =
            .error (.operandCount "push" 2 1) := by
          decide +kernel
        exact nomatch refused.symm.trans (Instruction.ofWords_eq_ok.2 spelled)
    have faulty : ∃ line ∈ faultyLines, Line.Faulty line :=
      ⟨"push local // 0".toList, by decide, "push local ".toList,
        @Line.IsCode.before "push local ".toList (by decide) " 0".toList, unspelled⟩
    obtain ⟨before, line, after, code, e, split, sound, isCode, fault, -, read⟩ :=
      ((parse_lines text).2 faultyLines inLines).2 faulty
    have found : parse text = .error (2, .operandCount "push" 2 1) := by decide +kernel
    rw [read] at found
    injection found with found
    injection found with number error
    exact ⟨inLines, faulty, before, line, after, split, sound, ⟨code, isCode, fault⟩, number,
      read.trans (by rw [number, error])⟩

end Chunk

end JackCompiler
