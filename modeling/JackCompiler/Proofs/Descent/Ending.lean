import JackCompiler.Proofs.Descent.Agreement
/-!
# Reading ends on every text

A round of the scanner that yields a token takes a byte, and one that does not is the last. A call
of the descent that gives back a tree takes a token, loops apart, and no call gives one back. In
front of a token calls go down level by level, so every chain of open calls is short, every loop is
played out, and every call comes to an end. What the call for a class ends with is what the states
answer.

        scanner   round ── ≥ 1 byte ──▶ round ── ≥ 1 byte ──▶ … ──▶ the end of the text, or an error
        descent   calls, down the levels ── ≥ 1 token ──▶ calls, down the levels ── … ──▶ the class
-/

namespace JackCompiler

/-! ### Rounds of the scanner -/

namespace Scanner

variable {s : Scanner}

/-- A round is none, or fails for good, or takes a byte. -/
def RoundEnds (s : Scanner) : Prop :=
  match s.next? with
  | none => s.refused ∨ s.unread = []
  | some (.error _, rest) => rest.next? = none
  | some (.ok _, rest) => ∃ w, w ≠ [] ∧ s.unread = w ++ rest.unread

theorem roundEnds (s : Scanner) : s.RoundEnds := by
  rcases found : s.next? with _ | ⟨e | t, rest⟩ <;> simp only [RoundEnds, found]
  · unfold next? at found
    split at found
    · next done => simpa using done
    · dsimp only at found
      split at found <;> cases found
  · unfold next? at found
    split at found
    · cases found
    · dsimp only at found
      split at found
      · cases found
      · cases found
        simp [next?]
  · have shorter := next?_shorter found
    obtain ⟨length, behind⟩ : ∃ length, rest.unread = s.unread.drop length := by
      unfold next? at found
      split at found
      · cases found
      · dsimp only at found
        split at found
        · cases found
          exact ⟨_, rfl⟩
        · cases found
    refine ⟨s.unread.take length, ?_, by rw [behind, List.take_append_drop]⟩
    intro none
    have whole := List.take_append_drop length s.unread
    rw [none, List.nil_append, ← behind] at whole
    rw [whole] at shorter
    exact Nat.lt_irrefl _ shorter

/-- There are no more rounds than bytes. -/
theorem run_ends (s : Scanner) :
    s.run.rest.next? = none ∧ s.run.tokens.length ≤ s.unread.length := by
  induction bytes : s.unread.length using Nat.strong_induction_on generalizing s with
  | _ m ih =>
    have ends := s.roundEnds
    rw [run_eq]
    rcases found : s.next? with _ | ⟨e | t, rest⟩ <;> simp only [RoundEnds, found] at ends ⊢
    · exact ⟨trivial, Nat.zero_le _⟩
    · exact ⟨ends, Nat.zero_le _⟩
    · have shorter := next?_shorter found
      obtain ⟨ended, few⟩ := ih _ (bytes ▸ shorter) rest rfl
      refine ⟨ended, ?_⟩
      rw [List.length_cons]
      omega

/-- Nor does the search for a significant token take more. -/
theorem significantWithin_congr (s : Scanner) {n m : Nat} (hn : s.unread.length ≤ n)
    (hm : s.unread.length ≤ m) :
    significantWithin n s = significantWithin m s := by
  induction n generalizing s m with
  | zero => cases m <;> simp [significantWithin, next?_of_length_le_zero hn]
  | succ n ih =>
    cases m with
    | zero => simp [significantWithin, next?_of_length_le_zero hm]
    | succ m =>
      rcases found : s.next? with _ | ⟨e | t, rest⟩ <;> simp only [significantWithin, found]
      have shorter := next?_shorter found
      rw [ih rest (m := m) (by omega) (by omega)]

end Scanner

/-! ### The class of a text -/

namespace Descent

/-- The call for a class reads what the states read. -/
theorem Call.file_run {n : Nat} {p q : Parser} {out : Except CompileError ClassTree}
    (ran : Call.file.run n p = some (out, q)) : p.reader.classTree = (out, q.reader) := by
  have same := Call.agrees n .file p out q ran
  rcases out with e | tree
  · exact same
  · exact same

/-- **Reading ends on every text.** Every round of a scanner fails for good or takes a byte, so a
scan and the search for a significant token have no more rounds than bytes. Every call of the
descent takes tokens and gives none back, and takes one if it gives back a tree, loops apart. Calls
that make one another are bounded by the tokens ahead; those of them in front of one token are at
most five, and behind the first round of a loop there is at most one for every token. So every call
ends, and the class of the text is read, or refused, with no more tokens taken than there are. -/
theorem reading_ends (source : String) :
    (∀ s : Scanner, s.RoundEnds ∧ s.run.rest.next? = none ∧
      s.run.tokens.length ≤ s.unread.length ∧
      ∀ rounds ≥ s.unread.length, s.significantWithin rounds = s.nextSignificant) ∧
    (∀ depth (c : Call) p out q, c.run depth p = some (out, q) →
      ∃ w, p.Takes w q ∧ (c.advances → (∃ a, out = .ok a) → w ≠ [])) ∧
    (∀ (f : Frame) stack, (f :: stack).IsChain Frame.Opens →
      let ahead := f.parser.reader.ahead
      stack.length ≤ 5 * ahead.length + 4 ∧
      ((∀ g ∈ stack, g.parser.taken = f.parser.taken) → stack.length ≤ 4) ∧
      ((∀ g ∈ stack, g.call.level = f.call.level) → stack.length ≤ ahead.length)) ∧
    (∀ depth (c : Call) p, 5 * p.reader.ahead.length + 4 < depth →
      ∃ out q, c.run depth p = some (out, q)) ∧
    (let tokens := Reader.significant (Scanner.ofSource source).run.tokens
     ∀ depth > 5 * tokens.length + 4, ∃ q,
      Call.file.run depth (.ofSource source) = some (ClassTree.ofSource source, q) ∧
        q.taken <+: tokens ∧ q.taken.length ≤ tokens.length) := by
  have returns (depth : Nat) (c : Call) (p : Parser)
      (room : 5 * p.reader.ahead.length + 4 < depth) : ∃ out q, c.run depth p = some (out, q) := by
    have level := c.level_le
    obtain ⟨⟨out, q⟩, ran⟩ := c.run_returns depth p (by rw [Call.room]; omega)
    exact ⟨out, q, ran⟩
  refine ⟨fun s => ?_, fun depth => Call.run_sound depth, fun f stack chain => ?_, returns, ?_⟩
  · obtain ⟨ended, few⟩ := s.run_ends
    exact ⟨s.roundEnds, ended, few, fun rounds enough => s.significantWithin_congr enough le_rfl⟩
  · have level := f.call.level_le
    refine ⟨?_, fun idle => (Frame.length_le_level chain idle).trans level,
      Frame.length_le_ahead chain⟩
    have room := Frame.length_le_room chain
    rw [Call.room] at room
    omega
  · intro tokens depth room
    obtain ⟨out, q, ran⟩ := returns depth .file (.ofSource source) room
    obtain ⟨w, takes, -⟩ := Call.run_sound _ _ _ _ _ ran
    have answer : ClassTree.ofSource source = out := congrArg Prod.fst (Call.file_run ran)
    have front : q.taken <+: tokens := by
      rw [takes.taken]
      exact ⟨q.reader.ahead, takes.ahead.symm⟩
    exact ⟨q, by rw [ran, answer], front, front.length_le⟩

-- A text that breaks off is refused behind its last token.
example : ((Call.file.run 20 (.ofSource "class A \x7b")).map fun (out, q) =>
    (out.toOption.isSome, q.taken.length)) = some (false, 3) := by
  decide +kernel

end Descent

end JackCompiler
