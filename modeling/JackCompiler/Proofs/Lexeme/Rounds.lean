import JackCompiler.Lexeme.Scanner
import JackCompiler.Proofs.Lexeme.Recognition
/-!
# How a round ends

A round ends with the most bytes that some automaton of the roster takes, and the finalists are all
that take these. Its winner has the highest rank among the kinds over which finalists close.

        bytes:   b₁ … bₙ        taken by somebody
                 b₁ … bₙ bₙ₊₁   taken by nobody
-/

namespace JackCompiler

namespace Automaton

/-- The automaton with more bytes, if all of them are taken. -/
def after (a : Automaton) (w : List UInt8) : Option Automaton :=
  (a.progress.run w).map (⟨·, a.consumed + w.length⟩)

theorem after_nil (a : Automaton) : a.after [] = some a := rfl

theorem after_cons (a : Automaton) (b : UInt8) (w : List UInt8) :
    a.after (b :: w) = (a.feed b).bind (·.after w) := by
  rw [after, feed, Progress.run]
  cases a.progress.step b with
  | none => rfl
  | some p =>
    simp only [Option.bind_some, Option.map_some, after, List.length_cons]
    rw [Nat.add_right_comm, Nat.add_assoc]

/-- The automaton takes the bytes. -/
def Takes (a : Automaton) (w : List UInt8) : Prop := ∃ p, a.progress.run w = some p

theorem Takes.of_append {a : Automaton} {w v : List UInt8} (h : a.Takes (w ++ v)) :
    a.Takes w := by
  obtain ⟨p, run_eq⟩ := h
  rw [Progress.run_append] at run_eq
  obtain ⟨q, taken, -⟩ := Option.bind_eq_some_iff.1 run_eq
  exact ⟨q, taken⟩

theorem Takes.take {a : Automaton} {w : List UInt8} {m n : Nat} (h : a.Takes (w.take n))
    (le : m ≤ n) : a.Takes (w.take m) := by
  rw [← Nat.add_sub_cancel' le, List.take_add] at h
  exact h.of_append

theorem takes_iff {a : Automaton} {w : List UInt8} :
    a.Takes w ↔ (∃ kind, a.progress.Closes w kind) ∨ a.progress.Waits w := by
  constructor
  · rintro ⟨p, run_eq⟩
    cases closed : p.close with
    | none => exact .inr ⟨p, run_eq, closed⟩
    | some kind => exact .inl ⟨kind, p, run_eq, closed⟩
  · rintro (⟨kind, p, run_eq, -⟩ | ⟨p, run_eq, -⟩) <;> exact ⟨p, run_eq⟩

end Automaton

namespace Round

/-! ### The finalists -/

/-- The automata of a roster that take the bytes. -/
def survivors (roster : List Automaton) (w : List UInt8) : List Automaton :=
  roster.filterMap (·.after w)

theorem survivors_nil (roster : List Automaton) : survivors roster [] = roster := by
  simp [survivors, Automaton.after_nil]

theorem survivors_cons (roster : List Automaton) (b : UInt8) (w : List UInt8) :
    survivors (roster.filterMap (·.feed b)) w = survivors roster (b :: w) := by
  rw [survivors, survivors, List.filterMap_filterMap]
  simp only [Automaton.after_cons]

theorem survivors_eq_nil {roster : List Automaton} {w : List UInt8} :
    survivors roster w = [] ↔ ∀ a ∈ roster, ¬ a.Takes w := by
  rw [survivors, List.filterMap_eq_nil_iff]
  refine forall₂_congr fun a _ => ?_
  rw [Automaton.after, Option.map_eq_none_iff, Automaton.Takes, Option.eq_none_iff_forall_ne_some,
    not_exists]

/-- A round takes bytes as long as somebody survives. -/
theorem play_eq (roster : List Automaton) (length : Nat) (w : List UInt8) :
    ∃ n ≤ w.length, play ⟨roster, length⟩ w = ⟨survivors roster (w.take n), length + n⟩ ∧
      (n ≠ 0 → survivors roster (w.take n) ≠ []) ∧
      (n < w.length → survivors roster (w.take (n + 1)) = []) := by
  induction w generalizing roster length with
  | nil =>
    refine ⟨0, Nat.le_refl 0, ?_, by simp, by simp⟩
    rw [play, List.take_nil, survivors_nil, Nat.add_zero]
  | cons b w ih =>
    cases h : roster.filterMap (·.feed b) with
    | nil =>
      refine ⟨0, Nat.zero_le _, ?_, by simp, fun _ => ?_⟩
      · rw [play, h, List.take_zero, survivors_nil]
        rfl
      · rw [Nat.zero_add, List.take_succ_cons, List.take_zero, ← survivors_cons, h]
        rfl
    | cons a rest =>
      obtain ⟨n, bound, round, alive, dead⟩ := ih (a :: rest) (length + 1)
      rw [← h] at round alive dead
      simp only [survivors_cons] at round alive dead
      refine ⟨n + 1, Nat.succ_le_succ bound, ?_, fun _ => ?_, fun more => ?_⟩
      · rw [play, h]
        simp only
        rw [← h, round, Nat.add_right_comm, Nat.add_assoc]
        rfl
      · rw [List.take_succ_cons]
        rcases Nat.eq_zero_or_pos n with rfl | begun
        · rw [List.take_zero, ← survivors_cons, survivors_nil, h]
          exact List.cons_ne_nil a rest
        · exact alive (Nat.ne_of_gt begun)
      · exact dead (Nat.lt_of_succ_lt_succ more)

/-- The bytes of a round are the longest that somebody takes. -/
theorem longest {roster : List Automaton} {w : List UInt8} {n m : Nat}
    (dead : n < w.length → survivors roster (w.take (n + 1)) = []) (bound : m ≤ w.length)
    (taken : ∃ a ∈ roster, a.Takes (w.take m)) : m ≤ n := by
  by_contra more
  obtain ⟨a, member, takes⟩ := taken
  have shorter : n < m := Nat.lt_of_not_le more
  have none := survivors_eq_nil.1 (dead (Nat.lt_of_lt_of_le shorter bound))
  exact none a member (takes.take shorter)

/-! ### The winner -/

theorem foldl_prefer_some (kinds : List TokenKind) (b : TokenKind) :
    ∃ k, kinds.foldl prefer (some b) = some k ∧ (k = b ∨ k ∈ kinds) ∧ b.rank ≤ k.rank ∧
      ∀ k' ∈ kinds, k'.rank ≤ k.rank := by
  induction kinds generalizing b with
  | nil => exact ⟨b, rfl, .inl rfl, Nat.le_refl _, by simp⟩
  | cons c kinds ih =>
    rw [List.foldl_cons, prefer]
    by_cases higher : b.rank < c.rank
    · rw [if_pos higher]
      obtain ⟨k, found, member, le, all⟩ := ih c
      refine ⟨k, found, .inr ?_, Nat.le_trans (Nat.le_of_lt higher) le, ?_⟩
      · exact List.mem_cons.2 member
      · exact List.forall_mem_cons.2 ⟨le, all⟩
    · rw [if_neg higher]
      obtain ⟨k, found, member, le, all⟩ := ih b
      refine ⟨k, found, member.imp_right (.tail c), le, ?_⟩
      exact List.forall_mem_cons.2 ⟨Nat.le_trans (Nat.le_of_not_lt higher) le, all⟩

/-- Nobody wins if nothing is found, and otherwise a kind of highest rank. -/
theorem foldl_prefer (kinds : List TokenKind) :
    kinds = [] ∧ kinds.foldl prefer none = none ∨
      ∃ k ∈ kinds, kinds.foldl prefer none = some k ∧ ∀ k' ∈ kinds, k'.rank ≤ k.rank := by
  cases kinds with
  | nil => exact .inl ⟨rfl, rfl⟩
  | cons c kinds =>
    obtain ⟨k, found, member, le, all⟩ := foldl_prefer_some kinds c
    exact .inr ⟨k, List.mem_cons.2 member, found, List.forall_mem_cons.2 ⟨le, all⟩⟩

theorem mem_survivors_closing {roster : List Automaton} {w : List UInt8} {kind : TokenKind} :
    kind ∈ (survivors roster w).filterMap (·.close) ↔
      ∃ a ∈ roster, a.progress.Closes w kind := by
  simp only [List.mem_filterMap, survivors, Automaton.after, Option.map_eq_some_iff]
  constructor
  · rintro ⟨-, ⟨a, member, p, run_eq, rfl⟩, closed⟩
    exact ⟨a, member, p, run_eq, closed⟩
  · rintro ⟨a, member, p, run_eq, closed⟩
    exact ⟨_, ⟨a, member, p, run_eq, rfl⟩, closed⟩

end Round

end JackCompiler
