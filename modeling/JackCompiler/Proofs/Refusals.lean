import JackCompiler.Compilation
import JackCompiler.Proofs.Grammar.Located
import JackCompiler.Proofs.Grammar.Soundness
import JackCompiler.Proofs.Lexeme.Lossless
import JackCompiler.Proofs.Syntax.ViablePrefix
/-!
# Why and where a class is refused

Whatever the source text, it gives a chunk or an error of the user, and that is about a byte of the
text or about its end. The scanner and the parser count their places. Generation blames nodes of the
tree, and the tree of a source text has the place of a token at each of these, and none of the
nodes that generation has no instructions for.

        source ──▶ tokens ──▶ tree ──▶ chunk
             lexical    parse    name resolution          each with a place in the source
-/

namespace JackCompiler

variable {P : Position → Prop} {α β : Type}

/-! ### What generation blames -/

/-- If generation is refused, then for a name, at a place with the property. -/
def OnlyBlames (P : Position → Prop) (x : Generated α) : Prop :=
  ∀ e, x = .error e → e.kind = .nameResolution ∧ Recorded P e.position

namespace OnlyBlames

theorem ok (a : α) : OnlyBlames P (.ok a) := nofun

theorem bind {x : Generated α} {f : α → Generated β} (hx : OnlyBlames P x)
    (hf : ∀ a, OnlyBlames P (f a)) : OnlyBlames P (x >>= f) := by
  cases x with
  | ok a => exact hf a
  | error e =>
    intro e' h
    cases h
    exact hx e rfl

theorem blame {e : CompileError} (kind : e.kind = .nameResolution) (place : Recorded P e.position) :
    OnlyBlames P (.error e : Generated α) := by
  rintro _ ⟨⟩
  exact ⟨kind, place⟩

theorem receiver (site : Site) {position : Option Position} (h : Recorded P position) :
    OnlyBlames P (site.receiver position) := by
  unfold Site.receiver
  split
  · exact ok _
  · exact blame rfl h

theorem lookup (site : Site) (name : String) {position : Option Position} (h : Recorded P position) :
    OnlyBlames P (site.lookup name position) := by
  unfold Site.lookup
  split
  · exact ok _
  · exact blame rfl h

/-- A string that a class can write down can be made. -/
theorem string {value : String} (h : value.utf8ByteSize ≤ longestText) :
    OnlyBlames P (stringCode value) := by
  rw [stringCode, if_pos (h.trans (by decide))]
  exact ok _

end OnlyBlames

mutual

/-- Generation for an expression blames nothing but names. -/
theorem Expr.code_onlyBlames (site : Site) : ∀ {e : Expr}, e.Located P →
    OnlyBlames P (e.code site)
  | .constant .., _ | .boolean _, _ | .null, _ => .ok _
  | .string value, h => by
    rw [Expr.Located] at h
    exact .string h
  | .this position, h => by
    rw [Expr.Located] at h
    exact (OnlyBlames.receiver site h).bind fun _ => .ok _
  | .reference name position, h => by
    rw [Expr.Located] at h
    exact (OnlyBlames.lookup site name h).bind fun _ => .ok _
  | .binary op left right position, h => by
    rw [Expr.Located] at h
    exact (left.code_onlyBlames site h.2.1).bind fun _ =>
      (right.code_onlyBlames site h.2.2).bind fun _ => .ok _
  | .unary op operand, h => by
    rw [Expr.Located] at h
    exact (operand.code_onlyBlames site h).bind fun _ => .ok _
  | .call name arguments position, h => by
    rw [Expr.Located] at h
    refine (argumentsCode_onlyBlames site h.2).bind fun _ => ?_
    dsimp only
    split <;> exact .ok _
  | .methodCall receiver name arguments position, h => by
    rw [Expr.Located] at h
    obtain ⟨place, named, inside, others⟩ := h
    have pushed := argumentsCode_onlyBlames site others
    cases receiver with
    | this position =>
      rw [Expr.Located] at inside
      exact (OnlyBlames.receiver site inside).bind fun _ => pushed.bind fun _ => .ok _
    | reference object position =>
      rw [Expr.Located] at inside
      rw [Expr.code]
      split
      · split
        · exact .blame rfl inside
        · exact pushed.bind fun _ => .ok _
      · exact pushed.bind fun _ => .ok _
    | _ => exact named.elim
  | .index target subscript, h => by
    rw [Expr.Located] at h
    exact (target.code_onlyBlames site h.1).bind fun _ =>
      (subscript.code_onlyBlames site h.2).bind fun _ => .ok _

theorem argumentsCode_onlyBlames (site : Site) : ∀ {es : List Expr}, allLocated P es →
    OnlyBlames P (argumentsCode site es)
  | [], _ => .ok _
  | e :: es, h => by
    rw [allLocated] at h
    exact (Expr.code_onlyBlames site h.1).bind fun _ =>
      (argumentsCode_onlyBlames site h.2).bind fun _ => .ok _

end

mutual

/-- Generation for a statement blames nothing but names. -/
theorem Stmt.code_onlyBlames (className : String) : ∀ {s : Stmt} {f : Frame}, s.Located P →
    OnlyBlames P (s.code className f)
  | .declare _, _, _ | .giveBack none _, _, _ => .ok _
  | .assign name value position, f, h => by
    rw [Stmt.Located] at h
    exact (value.code_onlyBlames _ h.2).bind fun _ =>
      (OnlyBlames.lookup _ name h.1).bind fun _ => .ok _
  | .assignElement name subscript value position, f, h => by
    rw [Stmt.Located] at h
    exact (value.code_onlyBlames _ h.2.2).bind fun _ =>
      (OnlyBlames.lookup _ name h.1).bind fun _ =>
        (subscript.code_onlyBlames _ h.2.1).bind fun _ => .ok _
  | .ifThen condition body, f, h => by
    rw [Stmt.Located] at h
    exact (condition.code_onlyBlames _ h.1).bind fun _ =>
      (blockCode_onlyBlames className h.2).bind fun _ => .ok _
  | .ifElse condition body alternative, f, h => by
    rw [Stmt.Located] at h
    exact (condition.code_onlyBlames _ h.1).bind fun _ =>
      (blockCode_onlyBlames className h.2.1).bind fun _ =>
        (blockCode_onlyBlames className h.2.2).bind fun _ => .ok _
  | .repeatWhile condition body, f, h => by
    rw [Stmt.Located] at h
    exact (condition.code_onlyBlames _ h.1).bind fun _ =>
      (blockCode_onlyBlames className h.2).bind fun _ => .ok _
  | .perform call position, f, h => by
    rw [Stmt.Located] at h
    exact (call.code_onlyBlames _ h.2).bind fun _ => .ok _
  | .giveBack (some value) position, f, h => by
    rw [Stmt.Located] at h
    exact (value.code_onlyBlames _ h.2).bind fun _ => .ok _

theorem blockCode_onlyBlames (className : String) : ∀ {ss : List Stmt} {f : Frame},
    blockLocated P ss → OnlyBlames P (blockCode className ss f)
  | [], _, _ => .ok _
  | s :: ss, f, h => by
    rw [blockLocated] at h
    exact (Stmt.code_onlyBlames className h.1).bind fun _ =>
      (blockCode_onlyBlames className h.2).bind fun _ => .ok _

end

theorem Routine.code_onlyBlames {r : Routine} (h : r.Located P) (className : String)
    (table : Table) : OnlyBlames P (r.code className table) :=
  (blockCode_onlyBlames className h.body).bind fun _ => .ok _

theorem Generator.finishRoutines_onlyBlames {rs : List Routine} (h : ∀ r ∈ rs, r.Located P)
    {className : String} {table : Table} {g g' : Generator} {e : CompileError}
    (refused : finishRoutines className table g rs = (g', some e)) :
    e.kind = .nameResolution ∧ Recorded P e.position := by
  induction rs generalizing g with
  | nil => cases refused
  | cons r rs ih =>
    obtain ⟨first, others⟩ := List.forall_mem_cons.1 h
    rw [finishRoutines] at refused
    split at refused
    · exact ih others refused
    · next e' found =>
      cases refused
      exact Routine.code_onlyBlames first className table e found

/-- **Generation for a class blames nothing but names, each at its place.** -/
theorem ClassTree.chunk_onlyBlames {c : ClassTree} (h : c.Located P) : OnlyBlames P c.chunk := by
  intro e refused
  rw [chunk, Generator.generate] at refused
  split at refused
  · cases refused
  · next g e' found =>
    cases refused
    exact Generator.finishRoutines_onlyBlames h.routines found

/-! ### What the parser blames -/

/-- The tokens that are significant begin and end at bytes of the source text. -/
theorem significantTokens_within {source : String} {t : Token}
    (h : t ∈ significantTokens source) :
    t.position.Within (Utf8.bytes source) ∧ t.span.last.Within (Utf8.bytes source) :=
  Scanner.tokens_within (List.mem_of_mem_filter h)

theorem lastByte_within {text : List UInt8} {ts : List Token} {last : Position}
    (h : ∀ t ∈ ts, t.span.last.Within text) (start : last.Within text) :
    (State.lastByte ts last).Within text := by
  rw [State.lastByte]
  cases found : ts.getLast? with
  | none => exact start
  | some t => exact h t (List.mem_of_getLast? found)

/-- A class that is read has passed all tokens. -/
theorem ClassTree.after_of_ofSource {source : String} {tree : ClassTree}
    (h : ofSource source = .ok tree) :
    State.classWord.after (significantTokens source) = some (.classDone tree) := by
  cases passed : State.classWord.after (significantTokens source) with
  | none =>
    obtain ⟨_, _, e, -, refused, -⟩ := ofSource_refused passed
    rw [refused] at h
    cases h
  | some s =>
    cases failure : (Scanner.ofSource source).run.error with
    | none =>
      rw [ofSource_eq_run, failure, State.run_eq_ok, passed] at h
      exact h
    | some e =>
      rw [ofSource_failure passed failure] at h
      cases h

/-- The tokens of a text that is read as a class do not end in an error. -/
theorem ClassTree.tokenize_of_ofSource {source : String} {tree : ClassTree}
    (h : ofSource source = .ok tree) : ∃ tokens, tokenize source = .ok tokens := by
  cases failure : (Scanner.ofSource source).run.error with
  | none => exact ⟨_, by rw [tokenize, failure]⟩
  | some e =>
    rw [ofSource_failure (after_of_ofSource h) failure] at h
    cases h

/-- The tree of a source text is that of a derivation of its significant tokens. -/
theorem ClassTree.derivation_of_ofSource {source : String} {tree : ClassTree}
    (h : ofSource source = .ok tree) :
    ∃ c : Grammar.Class, c.tokens = significantTokens source ∧ c.tree = tree := by
  have numeric : ∀ t ∈ significantTokens source, t.kind = .integerConstant → IsDigits t.value :=
    fun t member => (significantTokens_spelled source t member).isDigits
  exact exists_derivation numeric (after_of_ofSource h)

/-- The tree of a source text has the places of tokens. -/
theorem ClassTree.ofSource_located {source : String} {tree : ClassTree}
    (h : ofSource source = .ok tree) : tree.Located (Position.Within (Utf8.bytes source)) := by
  obtain ⟨c, tokens, rfl⟩ := derivation_of_ofSource h
  refine Grammar.Class.located fun t member => ?_
  rw [tokens] at member
  exact (significantTokens_within member).1

/-- A source text that is no class is refused by the scanner or the parser, at one of its bytes. -/
theorem ClassTree.ofSource_error {source : String} {e : CompileError}
    (h : ofSource source = .error e) :
    (e.kind = .lexical ∨ e.kind = .parse) ∧
      Recorded (Position.Within (Utf8.bytes source)) e.position := by
  cases passed : State.classWord.after (significantTokens source) with
  | none =>
    obtain ⟨before, t, e', fault, refused, kind, position⟩ := ofSource_refused passed
    cases h.symm.trans refused
    have member : t ∈ significantTokens source := fault.inFront.subset (by simp)
    exact ⟨.inr kind, _, position, (significantTokens_within member).1⟩
  | some s =>
    cases failure : (Scanner.ofSource source).run.error with
    | some e' =>
      cases h.symm.trans (ofSource_failure passed failure)
      obtain ⟨kind, p, position, within⟩ := Scanner.error_within failure
      exact ⟨.inl kind, p, position, within⟩
    | none =>
      have refused : ¬ Accepted (significantTokens source) := fun accepted => by
        obtain ⟨-, tree, done⟩ := accepted_iff.1 accepted
        rw [ofSource_eq_run, failure, State.run_eq_ok.2 done] at h
        cases h
      obtain ⟨missing, found⟩ := ofSource_end passed failure refused
      cases h.symm.trans found
      refine ⟨.inr rfl, _, rfl, lastByte_within (fun t member => ?_) (Position.start_within _)⟩
      exact (significantTokens_within member).2

/-! ### Compilation -/

/-- **A source text gives a chunk, or an error of the user at one of its bytes or at its end.** No
error is internal, and the line and the column are those of the byte. -/
theorem compile_refusals (source : String) :
    (∃ chunk, compile source = .ok chunk) ∨
      ∃ e p, compile source = .error e ∧
        (e.kind = .lexical ∨ e.kind = .parse ∨ e.kind = .nameResolution) ∧
        e.position = some p ∧ p.offset ≤ (Utf8.bytes source).length ∧
        p = Position.locate (Utf8.bytes source) p.offset := by
  cases h : compile source with
  | ok chunk => exact .inl ⟨chunk, rfl⟩
  | error e =>
    suffices blamed : (e.kind = .lexical ∨ e.kind = .parse ∨ e.kind = .nameResolution) ∧
        Recorded (Position.Within (Utf8.bytes source)) e.position by
      obtain ⟨kind, p, position, within⟩ := blamed
      exact .inr ⟨e, p, rfl, kind, position, within.offset_le, within.located⟩
    unfold compile at h
    cases read : ClassTree.ofSource source with
    | error e' =>
      rw [read] at h
      cases h
      obtain ⟨kind, place⟩ := ClassTree.ofSource_error read
      exact ⟨kind.imp_right .inl, place⟩
    | ok tree =>
      rw [read] at h
      obtain ⟨kind, place⟩ := ClassTree.chunk_onlyBlames (ClassTree.ofSource_located read) e h
      exact ⟨.inr (.inr kind), place⟩

end JackCompiler
