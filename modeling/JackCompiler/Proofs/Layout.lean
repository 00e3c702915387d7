import JackCompiler.Compilation
import JackCompiler.Proofs.Generation.Relocation
import JackCompiler.Proofs.Grammar.Parsing
import JackCompiler.Proofs.Lexeme.Layout
/-!
# Layout does not matter

Blanks and comments put between two tokens of a source text leave the significant tokens what they
are and only move them. What is compiled depends on kinds and values of significant tokens alone, so
the chunk stays the same, and an error changes nothing but its place.

        n / 2              kinds and values  ──▶  chunk, or error
                                  ║                      ║
        n / // half⏎ 2     kinds and values  ──▶  chunk, or error elsewhere
-/

namespace JackCompiler

/-- The same chunk, or errors that are the same but for their places. -/
inductive SameButPlaces : Except CompileError Chunk → Except CompileError Chunk → Prop
  | ok (chunk : Chunk) : SameButPlaces (.ok chunk) (.ok chunk)
  | error {e e' : CompileError} (kind : e.kind = e'.kind) (message : e.message = e'.message)
    (found : e.found = e'.found) (expected : e.expected = e'.expected) :
    SameButPlaces (.error e) (.error e')

namespace SameButPlaces

/-- What is the same with places replaced is the same but for places. -/
theorem of_relocate {f : Position → Position} {x y : Generated Chunk}
    (h : x.relocate f = y.relocate f) : SameButPlaces x y := by
  cases x with
  | ok chunk =>
    cases y with
    | ok chunk' =>
      obtain rfl : chunk = chunk' := Except.ok.inj h
      exact .ok chunk
    | error e => cases h
  | error e =>
    cases y with
    | ok chunk => cases h
    | error e' =>
      obtain ⟨kind, message, found, expected, -⟩ := CompileError.mk.inj (Except.error.inj h)
      exact .error kind message found expected

theorem eq_ok {x : Except CompileError Chunk} {chunk : Chunk} (h : SameButPlaces x (.ok chunk)) :
    x = .ok chunk := by
  cases h
  rfl

end SameButPlaces

/-! ### From tokens to chunks -/

/-- Compiling is reading the tree and turning it into a chunk, also with places replaced. -/
theorem compile_relocate (source : String) (f : Position → Position) :
    Generated.relocate f (compile source) =
      State.relocateResult (g := .class_) f (ClassTree.ofSource source) >>= ClassTree.chunk := by
  rw [compile, Generated.relocate_bind]
  cases ClassTree.ofSource source with
  | ok tree => exact tree.chunk_relocate.symm
  | error e => rfl

/-- The tree of a source text, with places replaced in its tokens. -/
theorem ClassTree.ofSource_relocate {source : String} {tokens : List Token}
    (h : tokenize source = .ok tokens) (f : Position → Position) :
    State.relocateResult (g := .class_) f (ofSource source) =
      (State.classWord.run none ((Reader.significant tokens).map (Token.relocate f))
        (f Position.start)).1 := by
  rw [ofSource, (Reader.ofSource_eq h).1, Reader.classTree, Reader.readFrom]
  exact (State.relocate_run none .classWord _ _).symm

/-- Tokens of the same kinds and values are the same with one place for all. -/
theorem relocate_const_eq {p : Position} {ts ts' : List Token}
    (same : ts.map Token.content = ts'.map Token.content) :
    ts.map (Token.relocate fun _ => p) = ts'.map (Token.relocate fun _ => p) := by
  have through (ts : List Token) : ts.map (Token.relocate fun _ => p) =
      (ts.map Token.content).map fun c => ⟨c.1, c.2, ⟨p, p⟩⟩ := by
    rw [List.map_map]
    rfl
  rw [through, through, same]

/-- **What is compiled depends on the kinds and values of the significant tokens.** -/
theorem compile_congr {source source' : String} {tokens tokens' : List Token}
    (h : tokenize source = .ok tokens) (h' : tokenize source' = .ok tokens')
    (same : (Reader.significant tokens).map Token.content =
      (Reader.significant tokens').map Token.content) :
    SameButPlaces (compile source) (compile source') := by
  refine .of_relocate (f := fun _ => Position.start) ?_
  rw [compile_relocate, compile_relocate, ClassTree.ofSource_relocate h,
    ClassTree.ofSource_relocate h', relocate_const_eq same]

/-! ### From pieces to tokens -/

/-- Tokens and pieces of the same kinds and values have the same significant ones. -/
theorem significant_content {ts : List Token} {ps : List Piece}
    (same : ts.map Token.content = ps.map Piece.content) :
    (Reader.significant ts).map Token.content = (solid ps).map Piece.content := by
  have kept := congrArg (List.filter fun c : TokenKind × String => !c.1.isTrivia) same
  rwa [List.filter_map, List.filter_map] at kept

/-- **Layout does not matter.** Blanks and whole comments between two tokens of a source text, a blank
first, change nothing in what it is compiled to but the place of an error. -/
theorem compile_layout (source layout : String) (front back : List Token)
    (read : tokenize source = .ok (front ++ back)) (begun : front ≠ []) (more : back ≠ [])
    (trivia : IsLayout (Utf8.bytes layout))
    (blank : ∃ b ∈ (Utf8.bytes layout).head?, isSpaceByte b) :
    source = textOf front ++ textOf back ∧
      SameButPlaces (compile (textOf front ++ layout ++ textOf back)) (compile source) := by
  obtain ⟨bytes, cut⟩ := Scanner.cut_of_tokenize read
  obtain ⟨c, head, space⟩ := blank
  obtain ⟨l, spelled⟩ := List.head?_eq_some_iff.1 head
  rw [spelled] at trivia
  rw [List.map_append] at bytes cut
  constructor
  · refine Utf8.bytes_injective ?_
    rw [bytes, Utf8.bytes_append, bytes_textOf, bytes_textOf, bytesOf_append]
  · obtain ⟨ps, joined, cut', same⟩ := cut.insert (by simpa using begun) (by simpa using more)
      trivia space
    have inserted : Utf8.bytes (textOf front ++ layout ++ textOf back) = bytesOf ps := by
      rw [Utf8.bytes_append, Utf8.bytes_append, bytes_textOf, bytes_textOf, joined, spelled,
        List.append_assoc]
    obtain ⟨tokens, read', content⟩ := Scanner.tokenize_of_cut cut' inserted
    refine compile_congr read' read ?_
    rw [significant_content content, same, ← List.map_append]
    exact (significant_content (map_piece_content _).symm).symm

/-- A class with a quotient in it. -/
def halfSource : String := "class A\x7bfunction int f(int n)\x7breturn n/2;\x7d\x7d"

/-- Its tokens; the first 19 end with the slash. -/
def halfTokens : List Token := (Scanner.ofSource halfSource).run.tokens

/-- What the class is compiled to. -/
def halfChunk : Chunk :=
  ⟨[.function "A.f" 0, .push .arguments 0, .push .constant 2, .call "Math.divide" 2, .giveBack]⟩

/-- The class with a blank and two comments behind the slash. -/
def remarkedSource : String :=
  "class A\x7bfunction int f(int n)\x7breturn n/ // half\n/* of it */2;\x7d\x7d"

/-- Behind the blank, the slash of the quotient and those of the comments are apart. -/
theorem halfSource_layout :
    tokenize halfSource = .ok (halfTokens.take 19 ++ halfTokens.drop 19) ∧
    halfTokens.take 19 ≠ [] ∧ halfTokens.drop 19 ≠ [] ∧
    IsLayout (Utf8.bytes " // half\n/* of it */") ∧
    (∃ b ∈ (Utf8.bytes " // half\n/* of it */").head?, isSpaceByte b) ∧
    compile halfSource = .ok halfChunk ∧ compile remarkedSource = .ok halfChunk := by
  have read : tokenize halfSource = .ok (halfTokens.take 19 ++ halfTokens.drop 19) := by
    decide +kernel
  have begun : halfTokens.take 19 ≠ [] := by decide +kernel
  have more : halfTokens.drop 19 ≠ [] := by decide +kernel
  have trivia : IsLayout (Utf8.bytes " // half\n/* of it */") := by
    have spelled : Utf8.bytes " // half\n/* of it */" =
        [32] ++ (47 :: 47 :: [32, 104, 97, 108, 102] ++ [Position.newline] ++
          ((47 :: 42 :: [32, 111, 102, 32, 105, 116, 32] ++ [42, 47]) ++ [])) := by decide +kernel
    rw [spelled]
    refine .blanks ⟨by simp, by simp [isSpaceByte]⟩ (.line (by simp [Position.newline])
      (.block ?_ .nil))
    exact ⟨_, rfl, by decide⟩
  have blank : ∃ b ∈ (Utf8.bytes " // half\n/* of it */").head?, isSpaceByte b :=
    ⟨32, by decide +kernel, by decide⟩
  have compiled : compile halfSource = .ok halfChunk := by decide +kernel
  obtain ⟨-, same⟩ := compile_layout halfSource " // half\n/* of it */" _ _ read begun more trivia
    blank
  have remarked : textOf (halfTokens.take 19) ++ " // half\n/* of it */" ++
      textOf (halfTokens.drop 19) = remarkedSource := by decide +kernel
  rw [remarked, compiled] at same
  exact ⟨read, begun, more, trivia, blank, compiled, same.eq_ok⟩

end JackCompiler
