import JackCompiler.Proofs.Lexeme.MaximalMunch
/-!
# The order of the roster

A round is played by all automata of the roster at once, so that how often one of them is in it and
where it stands changes neither the bytes taken nor who takes them. Its order can decide only
between kinds of one rank that close over the same bytes, and no two classes of lexemes have such
kinds. So every roster with the automata for source texts, in any order and however often each of
them, cuts a text into the same tokens.

        roster      a  b  c          c  a  b  a
        taken by    a     c          c  a     a       the same automata, over the same bytes
        winner      the kind of highest rank
-/

namespace JackCompiler

/-! ### Rounds -/

namespace Round

variable {r r' : Round}

/-- Offered one byte, rosters of the same automata stay rosters of the same automata. -/
theorem mem_feed_congr {roster roster' : List Automaton} (same : ∀ a, a ∈ roster ↔ a ∈ roster')
    (b : UInt8) (a : Automaton) :
    a ∈ roster.filterMap (·.feed b) ↔ a ∈ roster'.filterMap (·.feed b) := by
  simp only [List.mem_filterMap, same]

/-- So they play the same round to its end. -/
theorem play_congr (same : ∀ a, a ∈ r.finalists ↔ a ∈ r'.finalists)
    (length : r.length = r'.length) (w : List UInt8) :
    (∀ a, a ∈ (r.play w).finalists ↔ a ∈ (r'.play w).finalists) ∧
      (r.play w).length = (r'.play w).length := by
  induction w generalizing r r' with
  | nil => exact ⟨same, length⟩
  | cons b w ih =>
    have fed := mem_feed_congr same b
    rw [play, play]
    cases first : r.finalists.filterMap (·.feed b) with
    | nil =>
      have none : r'.finalists.filterMap (·.feed b) = [] := by
        rw [List.eq_nil_iff_forall_not_mem]
        intro a member
        rw [← fed, first] at member
        exact List.not_mem_nil member
      rw [none]
      exact ⟨same, length⟩
    | cons a survivors =>
      cases second : r'.finalists.filterMap (·.feed b) with
      | nil =>
        have member : a ∈ r.finalists.filterMap (·.feed b) := by
          rw [first]
          exact .head survivors
        rw [fed, second] at member
        exact absurd member List.not_mem_nil
      | cons a' survivors' =>
        rw [first, second] at fed
        exact ih fed (congrArg (· + 1) length)

/-- The same finalists have the same winner, if no two kinds that they close over have one rank. -/
theorem winner_congr (same : ∀ a, a ∈ r.finalists ↔ a ∈ r'.finalists)
    (length : r.length = r'.length)
    (decided : ∀ k ∈ r.finalists.filterMap (·.close), ∀ k' ∈ r.finalists.filterMap (·.close),
      k.rank = k'.rank → k = k') : r.winner = r'.winner := by
  have kinds (k : TokenKind) :
      k ∈ r.finalists.filterMap (·.close) ↔ k ∈ r'.finalists.filterMap (·.close) := by
    simp only [List.mem_filterMap, same]
  rw [winner, winner, length]
  congr 1
  rcases foldl_prefer (r.finalists.filterMap (·.close)) with ⟨none, found⟩ |
    ⟨k, member, found, highest⟩
  · have none' : r'.finalists.filterMap (·.close) = [] := by
      rw [List.eq_nil_iff_forall_not_mem]
      intro k member
      rw [← kinds, none] at member
      exact List.not_mem_nil member
    rw [none, none']
  · rcases foldl_prefer (r'.finalists.filterMap (·.close)) with ⟨none, -⟩ |
      ⟨k', member', found', highest'⟩
    · rw [kinds, none] at member
      exact absurd member List.not_mem_nil
    · have equal : k.rank = k'.rank :=
        Nat.le_antisymm (highest' k ((kinds k).1 member)) (highest k' ((kinds k').2 member'))
      rw [found, found', decided k member k' ((kinds k').2 member') equal]

end Round

/-! ### Rosters -/

/-- Of the kinds that automata of the roster close over the same bytes no two have one rank. -/
def Decided (roster : List Automaton) : Prop :=
  ∀ a ∈ roster, ∀ b ∈ roster, ∀ w k k', a.progress.Closes w k → b.progress.Closes w k' →
    k.rank = k'.rank → k = k'

theorem decided_standard : Decided (Automaton.standard.map Automaton.reset) :=
  fun a ha b hb _ _ _ closes closes' same =>
    (Automaton.standard_closes.1 ⟨a, ha, closes⟩).eq_of_rank
      (Automaton.standard_closes.1 ⟨b, hb, closes'⟩) same

namespace Scanner

/-- The scanner with another roster. -/
def swap (roster : List Automaton) (s : Scanner) : Scanner := { s with roster := roster }

variable {s rest : Scanner} {roster : List Automaton}

theorem round_swap (same : ∀ a, a ∈ roster ↔ a ∈ s.roster) (decided : Decided s.roster) :
    (s.swap roster).round.length = s.round.length ∧
      (s.swap roster).round.winner = s.round.winner := by
  have same : ∀ a, a ∈ (Round.mk roster 0).finalists ↔ a ∈ (Round.mk s.roster 0).finalists := same
  obtain ⟨members, length⟩ := Round.play_congr same rfl s.unread
  refine ⟨length, (Round.winner_congr (fun a => (members a).symm) length.symm ?_).symm⟩
  obtain ⟨w, covers⟩ := s.exists_covers
  have closing (k : TokenKind) :
      k ∈ s.round.finalists.filterMap (·.close) ↔ ∃ a ∈ s.roster, a.progress.Closes w k := by
    rw [covers.round, Round.mem_survivors_closing]
  intro k member k' member' equal
  obtain ⟨a, ha, closes⟩ := (closing k).1 member
  obtain ⟨b, hb, closes'⟩ := (closing k').1 member'
  exact decided a ha b hb w k k' closes closes' equal

/-- What is yielded next does not depend on the order of the roster. -/
theorem next?_swap (same : ∀ a, a ∈ roster ↔ a ∈ s.roster) (decided : Decided s.roster) :
    (s.swap roster).next? = s.next?.map fun (found, rest) => (found, rest.swap roster) := by
  obtain ⟨length, winner⟩ := round_swap same decided
  have refused : (s.swap roster).refused = s.refused := rfl
  have unread : (s.swap roster).unread = s.unread := rfl
  rw [next?, next?, refused, unread]
  split
  · rfl
  · dsimp only
    rw [winner, length]
    cases s.round.winner <;> rfl

theorem roster_of_next? {found : Except CompileError Token} (h : s.next? = some (found, rest)) :
    rest.roster = s.roster := by
  rw [next?] at h
  split at h
  · cases h
  · dsimp only at h
    split at h <;> cases h <;> rfl

/-- Neither does all that is yielded. -/
theorem runFor_swap (same : ∀ a, a ∈ roster ↔ a ∈ s.roster) (decided : Decided s.roster)
    (rounds : Nat) (done : List Token) :
    runFor rounds (s.swap roster) done =
      { runFor rounds s done with rest := (runFor rounds s done).rest.swap roster } := by
  induction rounds generalizing s done with
  | zero => rfl
  | succ rounds ih =>
    rw [runFor, runFor, next?_swap same decided]
    rcases found : s.next? with _ | ⟨e | t, rest⟩
    · rfl
    · rfl
    · have kept := roster_of_next? found
      exact ih (by rwa [kept]) (by rwa [kept]) (t :: done)

/-- **The order of the roster does not matter.** With the automata for source texts in any order,
each of them once or more often, a text has the same tokens and the same error. -/
theorem run_withRoster {roster : List Automaton}
    (same : ∀ a, a ∈ roster ↔ a ∈ Automaton.standard) (source : String) :
    (withRoster roster source).run.tokens = (ofSource source).run.tokens ∧
      (withRoster roster source).run.error = (ofSource source).run.error := by
  have members (a : Automaton) :
      a ∈ roster.map Automaton.reset ↔ a ∈ (ofSource source).roster := by
    simp only [ofSource, withRoster, List.mem_map, same]
  have run := runFor_swap members decided_standard (ofSource source).unread.length []
  change (withRoster roster source).run = _ at run
  rw [run]
  exact ⟨rfl, rfl⟩

/-- Read from behind and once more from the front, the roster finds the same tokens. -/
theorem reversed_roster_reads :
    (∀ a, a ∈ Automaton.standard.reverse ++ Automaton.standard ↔ a ∈ Automaton.standard) ∧
      ((withRoster (Automaton.standard.reverse ++ Automaton.standard) "let lets /").run.tokens =
          (ofSource "let lets /").run.tokens ∧
        (withRoster (Automaton.standard.reverse ++ Automaton.standard) "let lets /").run.error =
          (ofSource "let lets /").run.error) := by
  have same : ∀ a, a ∈ Automaton.standard.reverse ++ Automaton.standard ↔
      a ∈ Automaton.standard := by simp
  exact ⟨same, run_withRoster same "let lets /"⟩

end Scanner

end JackCompiler
