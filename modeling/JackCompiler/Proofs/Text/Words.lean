import JackCompiler.Text.Blank
import JackCompiler.Text.Pieces
/-!
# Lines and words

Cutting a text at a character, and splitting it at blanks, are both the splitting of a list; of the
words only those that are not empty are kept. So a line in front of a newline is a piece of its own,
and so is a word in front of a blank. How many blanks there are, and which, does not matter: the
words of a text are those that stand in it with blanks around them.

        push local 0 ⏎ add ⏎      pieces   push local 0 | add | (nothing)
                                  words    push | local | 0
-/

namespace JackCompiler

/-! ### Pieces -/

theorem foldl_pieceStep (separator : Char) (s : List Char) (done : List (List Char))
    (piece : List Char) :
    (let (d, p) := s.foldl (pieceStep separator) (done, piece); (p.reverse :: d).reverse) =
      done.reverse ++ s.splitOnPPrepend (· == separator) piece := by
  induction s generalizing done piece with
  | nil => simp
  | cons c s ih =>
    rw [List.foldl_cons, pieceStep, List.splitOnPPrepend_cons_eq_if]
    by_cases h : c = separator
    · rw [if_pos h, ih, if_pos (beq_iff_eq.2 h), List.splitOnPPrepend_nil_right]
      simp
    · rw [if_neg h, ih, if_neg (by simpa using h)]

/-- Cutting a text is splitting it. -/
theorem pieces_eq_splitOn (separator : Char) (s : List Char) :
    pieces separator s = s.splitOn separator := by
  have split := foldl_pieceStep separator s [] []
  rw [List.splitOnPPrepend_nil_right, List.reverse_nil, List.nil_append] at split
  rw [List.splitOn_eq_splitOnP, ← split]
  rfl

/-- What stands in front of the first separator is the first piece. -/
theorem pieces_append {separator : Char} {line : List Char} (h : separator ∉ line)
    (rest : List Char) :
    pieces separator (line ++ separator :: rest) = line :: pieces separator rest := by
  rw [pieces_eq_splitOn, pieces_eq_splitOn, List.splitOn_append_cons_self_of_not_mem h]

/-- Without a separator there is one piece. -/
theorem pieces_of_notMem {separator : Char} {s : List Char} (h : separator ∉ s) :
    pieces separator s = [s] := by
  rw [pieces_eq_splitOn, List.splitOn_eq_splitOnP, List.splitOnP_eq_singleton]
  exact fun c hc => beq_eq_false_iff_ne.2 fun same => h (same ▸ hc)

/-! ### Words -/

theorem foldl_wordStep (s : List Char) (done : List (List Char)) (word : List Char) :
    (let (d, w) := s.foldl wordStep (done, word);
      (if w.isEmpty then d else w.reverse :: d).reverse) =
      done.reverse ++ (s.splitOnPPrepend isBlank word).filter (!·.isEmpty) := by
  induction s generalizing done word with
  | nil => cases word <;> simp
  | cons c s ih =>
    rw [List.foldl_cons, wordStep, List.splitOnPPrepend_cons_eq_if]
    by_cases h : isBlank c
    · rw [if_pos h, if_pos h, ← List.splitOnPPrepend_nil_right]
      -- a word under way is kept unless it is empty
      cases word with
      | nil => simpa using ih done []
      | cons a word => simpa using ih ((a :: word).reverse :: done) []
    · rw [if_neg h, if_neg h, ih]

/-- The words of a text are what blanks leave between them, unless that is nothing. -/
theorem words_eq_splitOnP (s : List Char) :
    words s = (s.splitOnP isBlank).filter (!·.isEmpty) := by
  have split := foldl_wordStep s [] []
  rw [List.splitOnPPrepend_nil_right, List.reverse_nil, List.nil_append] at split
  rw [← split]
  rfl

/-- A piece of a split is a stretch of what was split, with nothing in it to split at. -/
theorem mem_splitOnPPrepend {α : Type} {p : α → Bool} {s front piece : List α}
    (h : piece ∈ s.splitOnPPrepend p front) (clean : ∀ c ∈ front, p c = false) :
    (∀ c ∈ piece, p c = false) ∧ piece <:+: front.reverse ++ s := by
  induction s generalizing front with
  | nil =>
    rw [List.splitOnPPrepend_nil, List.mem_singleton] at h
    subst h
    exact ⟨by simpa using clean, List.infix_append_of_infix_left (List.infix_refl _)⟩
  | cons c s ih =>
    rw [List.splitOnPPrepend_cons_eq_if] at h
    split at h
    · rcases List.mem_cons.1 h with rfl | h
      · exact ⟨by simpa using clean, List.infix_append_of_infix_left (List.infix_refl _)⟩
      · rw [← List.splitOnPPrepend_nil_right] at h
        obtain ⟨whole, inside⟩ := ih h (by simp)
        exact ⟨whole, inside.trans ⟨front.reverse ++ [c], [], by simp⟩⟩
    · next other =>
      obtain ⟨whole, inside⟩ := ih h (List.forall_mem_cons.2 ⟨by simpa using other, clean⟩)
      rw [List.reverse_cons, List.append_assoc] at inside
      exact ⟨whole, inside⟩

/-- A word of a text is a stretch of it, is not empty, and has no blank in it. -/
theorem mem_words {word s : List Char} (h : word ∈ words s) :
    word ≠ [] ∧ (∀ c ∈ word, isBlank c = false) ∧ word <:+: s := by
  rw [words_eq_splitOnP, List.mem_filter] at h
  obtain ⟨split, nonempty⟩ := h
  rw [← List.splitOnPPrepend_nil_right] at split
  obtain ⟨unblank, inside⟩ := mem_splitOnPPrepend split (by simp)
  exact ⟨by simpa using nonempty, unblank, inside⟩

/-- Blanks separate words. -/
theorem words_append {c : Char} (blank : isBlank c) (s rest : List Char) :
    words (s ++ c :: rest) = words s ++ words rest := by
  simp only [words_eq_splitOnP]
  rw [List.splitOnP_append_cons s rest blank, List.filter_append]

/-- A text without blanks is one word. -/
theorem words_of_not_blank {word : List Char} (nonempty : word ≠ [])
    (h : ∀ c ∈ word, isBlank c = false) : words word = [word] := by
  rw [words_eq_splitOnP, List.splitOnP_eq_singleton h]
  simp [nonempty]

/-- Blanks in front of a text add no words. -/
theorem words_blanks_append {gap : List Char} (blank : ∀ c ∈ gap, isBlank c) (s : List Char) :
    words (gap ++ s) = words s := by
  induction gap with
  | nil => rfl
  | cons c gap ih =>
    obtain ⟨hc, blank⟩ := List.forall_mem_cons.1 blank
    exact (words_append hc [] (gap ++ s)).trans (ih blank)

/-- The words stand in the text with blanks around them: any number in front of the first and behind
the last, and at least one between two. -/
inductive Spaced : List (List Char) → List Char → Prop
  | blanks {gap : List Char} (blank : ∀ c ∈ gap, isBlank c) : Spaced [] gap
  | word {gap w rest : List Char} {ws : List (List Char)} (blank : ∀ c ∈ gap, isBlank c)
      (nonempty : w ≠ []) (unbroken : ∀ c ∈ w, isBlank c = false)
      (apart : ∀ c ∈ rest.head?, isBlank c) (more : Spaced ws rest) :
      Spaced (w :: ws) (gap ++ w ++ rest)

namespace Spaced

variable {ws : List (List Char)} {s : List Char} {c : Char}

theorem words_eq (h : Spaced ws s) : words s = ws := by
  induction h with
  | blanks blank => simpa [words] using words_blanks_append blank []
  | @word gap w rest ws blank nonempty unbroken apart more ih =>
    rw [List.append_assoc, words_blanks_append blank]
    cases rest with
    | nil => rw [List.append_nil, words_of_not_blank nonempty unbroken, ← ih]; rfl
    | cons c rest =>
      have hc : isBlank c := apart c rfl
      rw [words_append hc, words_of_not_blank nonempty unbroken, ← ih]
      exact congrArg (w :: ·) (words_append hc [] rest).symm

/-- A blank in front adds to the gap there. -/
theorem cons_blank (h : Spaced ws s) (hc : isBlank c) : Spaced ws (c :: s) := by
  cases h with
  | blanks blank => exact .blanks (List.forall_mem_cons.2 ⟨hc, blank⟩)
  | word blank nonempty unbroken apart more =>
    exact .word (List.forall_mem_cons.2 ⟨hc, blank⟩) nonempty unbroken apart more

/-- Another character in front opens a word, or stands in front of the first. -/
theorem exists_cons (h : Spaced ws s) (hc : isBlank c = false) : ∃ vs, Spaced vs (c :: s) := by
  have alone {rest : List Char} {ws : List (List Char)} (apart : ∀ c ∈ rest.head?, isBlank c)
      (more : Spaced ws rest) : Spaced ([c] :: ws) (c :: rest) :=
    @Spaced.word [] [c] _ _ (by simp) (by simp) (by simpa using hc) apart more
  cases h with
  | blanks blank =>
    exact ⟨_, alone (fun b hb => blank b (List.mem_of_mem_head? hb)) (.blanks blank)⟩
  | @word gap w rest ws blank nonempty unbroken apart more =>
    cases gap with
    | nil =>
      exact ⟨(c :: w) :: ws, @Spaced.word [] (c :: w) _ _ (by simp) (by simp)
        (List.forall_mem_cons.2 ⟨hc, unbroken⟩) apart more⟩
    | cons b gap =>
      obtain ⟨hb, -⟩ := List.forall_mem_cons.1 blank
      exact ⟨_, alone (by simpa using hb) (.word blank nonempty unbroken apart more)⟩

end Spaced

/-- **The words of a text are those that stand in it with blanks around them.** -/
theorem words_eq_iff {ws : List (List Char)} {s : List Char} : words s = ws ↔ Spaced ws s := by
  refine ⟨?_, Spaced.words_eq⟩
  rintro rfl
  obtain ⟨ws, spaced⟩ : ∃ ws, Spaced ws s := by
    induction s with
    | nil => exact ⟨[], .blanks (by simp)⟩
    | cons c s ih =>
      obtain ⟨ws, spaced⟩ := ih
      by_cases hc : isBlank c
      · exact ⟨ws, spaced.cons_blank hc⟩
      · exact spaced.exists_cons (by simpa using hc)
  rwa [spaced.words_eq]

/-- Words with a space between are these words. -/
theorem words_intercalate : ∀ (ws : List (List Char)),
    (∀ w ∈ ws, w ≠ [] ∧ ∀ c ∈ w, isBlank c = false) → words ([' '].intercalate ws) = ws
  | [], _ => rfl
  | [w], h => by
    obtain ⟨nonempty, unblank⟩ := h w (.head _)
    rw [List.intercalate_singleton, words_of_not_blank nonempty unblank]
  | w :: v :: ws, h => by
    obtain ⟨⟨nonempty, unblank⟩, rest⟩ := List.forall_mem_cons.1 h
    rw [List.intercalate_cons_cons, List.append_assoc, List.singleton_append,
      words_append (by decide), words_of_not_blank nonempty unblank, words_intercalate _ rest]
    rfl

end JackCompiler
