import JackCompiler.Proofs.Layout
/-!
# Classes written out

A token that stands alone is the token of its text, whatever kinds that text fits besides. With
a blank behind each, such tokens are found again one by one. So every class that the grammar derives
from them has a source text, and compiling that text gives what its tree gives.

        class │ A │ { │ }     ──▶     class␣A␣{␣}␣     ──▶     the chunk of the tree
-/

namespace JackCompiler

/-! ### Tokens that stand alone -/

/-- The token sets nothing apart, and its text is read as a token of this kind. -/
structure Token.StandsAlone (t : Token) : Prop where
  solid : t.isTrivia = false
  whole : t.piece.Whole []

namespace Token

/-- A reserved word stands alone. -/
theorem standsAlone_keyword (k : Keyword) (span : Span) :
    StandsAlone ⟨.keyword k, k.text, span⟩ := by
  refine ⟨rfl, ⟨rfl, fun kind lexeme other => ?_, by simp⟩⟩
  -- no rank is above that of reserved words, and the spelling is that of one only
  have top : kind.rank ≤ 5 := by cases kind <;> simp [TokenKind.rank]
  exact Nat.lt_of_le_of_ne top fun same => other (lexeme.eq_of_rank (by rfl) same)

/-- A symbol stands alone. -/
theorem standsAlone_symbol (s : Symbol) (span : Span) : StandsAlone ⟨.symbol s, s.text, span⟩ := by
  refine ⟨rfl, ⟨rfl, fun kind lexeme other => ?_, by simp⟩⟩
  cases kind with
  | keyword k =>
    obtain ⟨b, spelling, opens⟩ := s.spelling_eq
    have spelled : Utf8.bytes k.text = [b] := lexeme.symm.trans spelling
    exact absurd (k.letters b (by rw [spelled]; exact .head _)) opens.2.1
  | symbol s' =>
    have spelled : Lexeme (.symbol s) (Utf8.bytes s.text) := rfl
    exact absurd (lexeme.eq_of_rank spelled rfl) other
  | _ => simp [Token.piece, TokenKind.rank]

/-- A name that is no reserved word stands alone. -/
theorem standsAlone_identifier {value : String} (span : Span) (name : IsName (Utf8.bytes value))
    (free : ∀ k : Keyword, Utf8.bytes value ≠ Utf8.bytes k.text) :
    StandsAlone ⟨.identifier, value, span⟩ := by
  refine ⟨rfl, ⟨name, fun kind lexeme other => ?_, by simp⟩⟩
  rcases lexeme.of_isName name with rfl | ⟨k, rfl⟩
  · exact absurd rfl other
  · exact absurd lexeme (free k)

end Token

/-! ### Blanks behind tokens -/

/-- A token that stands alone ends in front of a blank. -/
theorem Token.StandsAlone.before_blank {t : Token} (h : t.StandsAlone) (v : List UInt8) :
    t.piece.Whole (32 :: v) := by
  obtain ⟨solid, lexeme, highest, -⟩ := h
  refine ⟨lexeme, highest, fun b head => ?_⟩
  obtain rfl : 32 = b := Option.some.inj head
  refine lexeme.not_begun_blank ?_ (by decide) fun body free comment => ?_
  · intro blank
    rw [isTrivia, show t.kind = .whitespace from blank] at solid
    cases solid
  · -- two slashes open a comment
    rw [comment] at lexeme
    rw [isTrivia, show t.kind = .comment from lexeme.of_slash] at solid
    cases solid

/-- The text of tokens with a blank behind each. -/
def spacedText (ts : List Token) : String := String.join (ts.map fun t => t.text ++ " ")

theorem spacedText_cons (t : Token) (ts : List Token) :
    spacedText (t :: ts) = t.text ++ (" " ++ spacedText ts) := by
  rw [spacedText, List.map_cons, String.join_cons, String.append_assoc]
  rfl

/-- The text is cut into the tokens and the blanks between them. -/
theorem exists_cut_spacedText {ts : List Token} (alone : ∀ t ∈ ts, t.StandsAlone) :
    ∃ ps, Utf8.bytes (spacedText ts) = bytesOf ps ∧ Cut ps ∧ solid ps = ts.map Token.piece := by
  induction ts with
  | nil => exact ⟨[], rfl, trivial, rfl⟩
  | cons t ts ih =>
    obtain ⟨first, rest⟩ := List.forall_mem_cons.1 alone
    obtain ⟨ps, bytes, cut, same⟩ := ih rest
    have run : IsBlankRun [32] := ⟨by simp, by simp [isSpaceByte]⟩
    obtain ⟨qs, bytes', cut', same'⟩ := cut.blanks run
    have blank : Utf8.bytes " " = [32] := by decide
    refine ⟨t.piece :: qs, ?_, ⟨?_, cut'⟩, ?_⟩
    · rw [spacedText_cons, Utf8.bytes_append, Utf8.bytes_append, bytes, blank, bytesOf_cons, bytes']
      rfl
    · rw [bytes']
      exact first.before_blank _
    · have kept : t.piece.kind.isTrivia = false := first.solid
      rw [solid, List.filter_cons_of_pos (by simpa using kept), ← solid, same', same, List.map_cons]

/-! ### The text of a derivation -/

/-- Tokens of the kinds and values of a derivation are compiled as the tree of that derivation. -/
theorem Grammar.Class.compile_of_content (c : Grammar.Class) {source : String} {tokens : List Token}
    (read : tokenize source = .ok tokens)
    (same : (Reader.significant tokens).map Token.content = c.tokens.map Token.content) :
    SameButPlaces (compile source) c.tree.chunk := by
  let f : Position → Position := fun _ => Position.start
  have derived : (State.classWord.run none c.tokens Position.start).1 = .ok c.tree :=
    State.run_eq_ok.2 c.passes
  have moved : (State.classWord.run none (c.tokens.map (Token.relocate f)) (f Position.start)).1 =
      State.relocateResult (g := .class_) f (.ok c.tree) := by
    rw [← derived]
    exact State.relocate_run none State.classWord c.tokens Position.start
  refine .of_relocate (f := f) ?_
  rw [compile_relocate, ClassTree.ofSource_relocate read, relocate_const_eq same, moved]
  exact c.tree.chunk_relocate

/-- **A class written out is compiled as its tree is.** -/
theorem Grammar.Class.compile_spacedText (c : Grammar.Class)
    (alone : ∀ t ∈ c.tokens, t.StandsAlone) :
    SameButPlaces (compile (spacedText c.tokens)) c.tree.chunk := by
  obtain ⟨ps, bytes, cut, same⟩ := exists_cut_spacedText alone
  obtain ⟨tokens, read, content⟩ := Scanner.tokenize_of_cut cut bytes
  refine c.compile_of_content read ?_
  rw [significant_content content, same, map_piece_content]

end JackCompiler
