import JackCompiler.Proofs.Syntax.Completion
/-!
# Errors stand at the first token that goes wrong

Tokens are viable if a class begins with them. Since every state can be completed, tokens are viable
exactly if none of them is refused. So the error of a text is about the last token of its shortest
beginning that is not viable; it is the error that stands behind the tokens if all of them are
viable; and it is the end of the text if there is none.

        viable  viable  viable  not viable          error at the fourth token
        viable  viable  viable  ✗ unrecognized      that error
        viable  viable  viable  (end)               error at the end, unless a class ends there
-/

namespace JackCompiler

/-- Tokens that lexemes spell, and that are read as a class. -/
def Accepted (ts : List Token) : Prop :=
  (∀ t ∈ ts, t.Spelled) ∧ ∃ tree, (Reader.classTree ⟨ts, none, Position.start⟩).1 = .ok tree

/-- Tokens that a class begins with. -/
def Viable (ts : List Token) : Prop := ∃ rest, Accepted (ts ++ rest)

variable {ts : List Token}

theorem accepted_iff : Accepted ts ↔
    (∀ t ∈ ts, t.Spelled) ∧ ∃ tree, State.classWord.after ts = some (.classDone tree) :=
  and_congr_right fun _ => exists_congr fun _ => State.run_eq_ok

/-- **Tokens are viable exactly if none is refused.** -/
theorem viable_iff (spelled : ∀ t ∈ ts, t.Spelled) :
    Viable ts ↔ ∃ s, State.classWord.after ts = some s := by
  constructor
  · rintro ⟨rest, accepted⟩
    obtain ⟨-, tree, passed⟩ := accepted_iff.1 accepted
    rw [State.after_append] at passed
    obtain ⟨s, passed, -⟩ := Option.bind_eq_some_iff.1 passed
    exact ⟨s, passed⟩
  · rintro ⟨s, passed⟩
    obtain ⟨rest, tree, all, done⟩ := s.completes
    refine ⟨rest, accepted_iff.2 ⟨List.forall_mem_append.2 ⟨spelled, all⟩, tree, ?_⟩⟩
    rw [State.after_append, passed, Option.bind_some, done]

/-- What tokens begin with is viable if they are. -/
theorem Viable.of_front {ps : List Token} (h : Viable ts) (front : ps <+: ts) : Viable ps := by
  obtain ⟨us, rfl⟩ := front
  obtain ⟨rest, accepted⟩ := h
  exact ⟨us ++ rest, by rwa [← List.append_assoc]⟩

/-! ### The tokens of a source text -/

/-- The significant tokens of a source text, up to its end or its first error. -/
def significantTokens (source : String) : List Token :=
  Reader.significant (Scanner.ofSource source).run.tokens

theorem significantTokens_spelled (source : String) :
    ∀ t ∈ significantTokens source, t.Spelled :=
  fun t member => Scanner.tokens_spelled source t (List.mem_of_mem_filter member)

/-- A token ends the shortest beginning that is not viable. -/
structure FirstFault (ts before : List Token) (t : Token) : Prop where
  inFront : before ++ [t] <+: ts
  fault : ¬ Viable (before ++ [t])
  shortest : ∀ ps, ps <+: ts → ¬ Viable ps → before ++ [t] <+: ps

/-- The token that is refused is the first fault. -/
theorem FirstFault.of_refused {before behind : List Token} {t : Token} {s : State .class_}
    (spelled : ∀ u ∈ before ++ t :: behind, u.Spelled)
    (passed : State.classWord.after before = some s)
    (refused : State.classWord.after (before ++ [t]) = none) :
    FirstFault (before ++ t :: behind) before t := by
  have front : before ++ [t] <+: before ++ t :: behind := ⟨behind, by simp⟩
  have viable : Viable before :=
    (viable_iff fun u hu => spelled u (List.mem_append_left _ hu)).2 ⟨s, passed⟩
  refine ⟨front, fun more => ?_, fun ps hps fault => ?_⟩
  · obtain ⟨s', more⟩ := (viable_iff fun u hu => spelled u (front.subset hu)).1 more
    rw [refused] at more
    cases more
  · -- a shorter one would be in front of what has passed
    rcases Nat.lt_or_ge before.length ps.length with longer | shorter
    · refine List.prefix_of_prefix_length_le front hps ?_
      rw [List.length_append]
      exact longer
    · have inside := List.prefix_of_prefix_length_le hps (List.prefix_append before _) shorter
      exact absurd (viable.of_front inside) fault

theorem ClassTree.ofSource_eq_run (source : String) :
    ofSource source = (State.classWord.run (Scanner.ofSource source).run.error
      (significantTokens source) Position.start).1 := rfl

/-- Where a token is refused, the error is about the first fault. -/
theorem ClassTree.ofSource_refused {source : String}
    (h : State.classWord.after (significantTokens source) = none) :
    ∃ before t e, FirstFault (significantTokens source) before t ∧
      ofSource source = .error e ∧ e.kind = .parse ∧ e.position = some t.position := by
  obtain ⟨before, t, behind, e, same, ⟨s, passed⟩, refused, run, kind, position⟩ :=
    State.run_refused h (Scanner.ofSource source).run.error Position.start
  have spelled := significantTokens_spelled source
  rw [same] at spelled
  refine ⟨before, t, e, ?_, run, kind, position⟩
  rw [same]
  exact FirstFault.of_refused spelled passed refused

/-- Where no token is refused, the error behind the tokens is that of the class. -/
theorem ClassTree.ofSource_failure {source : String} {s : State .class_} {e : CompileError}
    (passed : State.classWord.after (significantTokens source) = some s)
    (failure : (Scanner.ofSource source).run.error = some e) : ofSource source = .error e := by
  rw [ofSource_eq_run, State.run_of_after passed, failure]
  rfl

/-- Where no token is refused and none is left, something is missing at the end of the text. -/
theorem ClassTree.ofSource_end {source : String} {s : State .class_}
    (passed : State.classWord.after (significantTokens source) = some s)
    (whole : (Scanner.ofSource source).run.error = none)
    (refused : ¬ Accepted (significantTokens source)) :
    ∃ missing, ofSource source = .error (.unexpectedEnd missing
      (some (State.lastByte (significantTokens source) Position.start))) := by
  rw [ofSource_eq_run, State.run_of_after passed, whole, State.run]
  cases ended : s.atEnd with
  | ok tree =>
    rw [State.atEnd_eq_ok.1 ended] at passed
    exact absurd (accepted_iff.2 ⟨significantTokens_spelled source, tree, passed⟩) refused
  | error missing => exact ⟨missing, rfl⟩

/-- **A parse error is about the first token that no class goes on with, and an error of the scanner
is given only if all tokens in front of it are viable.** -/
theorem ClassTree.ofSource_viable (source : String) :
    ((∃ ps, ps <+: significantTokens source ∧ ¬ Viable ps) →
      ∃ before t e, FirstFault (significantTokens source) before t ∧
        ofSource source = .error e ∧ e.kind = .parse ∧ e.position = some t.position) ∧
    ((∀ ps, ps <+: significantTokens source → Viable ps) →
      (∀ e, (Scanner.ofSource source).run.error = some e → ofSource source = .error e) ∧
      ((Scanner.ofSource source).run.error = none → ¬ Accepted (significantTokens source) →
        ∃ e, ofSource source = .error e ∧ e.kind = .parse ∧ e.found = some "end of input" ∧
          e.position = some
            (((significantTokens source).getLast?.map (·.span.last)).getD ⟨1, 1, 0⟩))) := by
  constructor
  · rintro ⟨ps, front, fault⟩
    refine ofSource_refused (Option.eq_none_iff_forall_ne_some.2 fun s passed => fault ?_)
    exact ((viable_iff (significantTokens_spelled source)).2 ⟨s, passed⟩).of_front front
  · intro viable
    obtain ⟨s, passed⟩ :=
      (viable_iff (significantTokens_spelled source)).1 (viable _ List.prefix_rfl)
    refine ⟨fun e => ofSource_failure passed, fun whole refused => ?_⟩
    obtain ⟨missing, found⟩ := ofSource_end passed whole refused
    exact ⟨_, found, rfl, rfl, rfl⟩

/-- A number in place of a name is reported, and not the bytes behind it that open no lexeme. -/
theorem ClassTree.ofSource_number_for_name : ∃ e, ofSource "class 1 #" = .error e ∧
    e.kind = .parse := by
  have refused : (State.classWord.after (significantTokens "class 1 #")).isNone := by decide +kernel
  have fault : ¬ Viable (significantTokens "class 1 #") := fun viable => by
    obtain ⟨s, passed⟩ := (viable_iff (significantTokens_spelled _)).1 viable
    rw [passed] at refused
    cases refused
  obtain ⟨_, _, e, -, found, kind, -⟩ := (ofSource_viable "class 1 #").1 ⟨_, List.prefix_rfl, fault⟩
  exact ⟨e, found, kind⟩

end JackCompiler
