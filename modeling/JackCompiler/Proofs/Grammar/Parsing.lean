import JackCompiler.Proofs.Grammar.Completeness
import JackCompiler.Proofs.Grammar.Soundness
import JackCompiler.Proofs.Grammar.Unambiguity
import JackCompiler.Proofs.Lexeme.Spelling
/-!
# Reading a class is deriving it

The tree of a source text is the tree of the one derivation of its tokens, and there is none if the
grammar does not derive them.

        source ──▶ tokens ──▶ derivation (one or none)
                     │            │
                     ▼            ▼
                   steps ──────▶ tree
-/

namespace JackCompiler

/-- The tokens of a text without errors are all that is ahead. -/
theorem Reader.ofSource_eq {source : String} {tokens : List Token}
    (h : tokenize source = .ok tokens) :
    ofSource source = ⟨significant tokens, none, Position.start⟩ ∧
      tokens = (Scanner.ofSource source).run.tokens := by
  rw [tokenize] at h
  split at h
  · next none =>
    cases h
    exact ⟨by rw [ofSource, ofScanner, none], rfl⟩
  · cases h

/-- A class is read exactly if the state behind its tokens is the state behind that class. -/
theorem ClassTree.ofSource_eq_ok {source : String} {tokens : List Token}
    (h : tokenize source = .ok tokens) (tree : ClassTree) :
    ofSource source = .ok tree ↔
      State.classWord.after (Reader.significant tokens) = some (.classDone tree) := by
  rw [ofSource, (Reader.ofSource_eq h).1, Reader.classTree, Reader.readFrom]
  exact State.run_eq_ok

/-- Tokens of numbers are digits. -/
theorem Reader.significant_isDigits {source : String} {tokens : List Token}
    (h : tokenize source = .ok tokens) :
    ∀ t ∈ significant tokens, t.kind = .integerConstant → IsDigits t.value := by
  intro t member number
  rw [(ofSource_eq h).2] at member
  exact (Scanner.tokens_spelled source t (List.mem_of_mem_filter member)).isDigits number

/-- **A source text is read as a class exactly if the grammar derives its tokens, and the tree is
that of the only derivation.** -/
theorem ClassTree.ofSource_iff_derivation (source : String) (tokens : List Token)
    (h : tokenize source = .ok tokens) :
    (∀ tree, ofSource source = .ok tree ↔
        ∃ c : Grammar.Class, c.tokens = Reader.significant tokens ∧ c.tree = tree) ∧
      ∀ c c' : Grammar.Class, c.tokens = Reader.significant tokens →
        c'.tokens = Reader.significant tokens → c = c' := by
  refine ⟨fun tree => ?_, fun c c' hc hc' => Grammar.Class.tokens_injective (hc.trans hc'.symm)⟩
  rw [ofSource_eq_ok h]
  constructor
  · exact exists_derivation (Reader.significant_isDigits h)
  · rintro ⟨c, tokens_eq, rfl⟩
    rw [← tokens_eq]
    exact c.passes

/-- A class with a sum and a product, the sum in front. -/
def sumSource : String :=
  "class A \x7b function int f() \x7b return -1 + 2 * b[3]; \x7d \x7d"

/-- The product is outside, as it stands behind the sum. -/
def sumTree : ClassTree where
  name := "A"
  members := [.routine {
    kind := .function
    returnType := .int
    name := "f"
    parameters := []
    body := [.giveBack (some
      (.binary .multiply
        (.binary .add (.unary .negate (.constant 1 (some ⟨1, 38, 37⟩)))
          (.constant 2 (some ⟨1, 42, 41⟩)) (some ⟨1, 40, 39⟩))
        (.index (.reference "b" (some ⟨1, 46, 45⟩)) (.constant 3 (some ⟨1, 48, 47⟩)))
        (some ⟨1, 44, 43⟩))) (some ⟨1, 30, 29⟩)]
    position := some ⟨1, 11, 10⟩ }]
  position := some ⟨1, 1, 0⟩

/-- The tokens of this class are derived, and the tree of the derivation is this. -/
theorem sumSource_derived :
    tokenize sumSource = .ok (Scanner.ofSource sumSource).run.tokens ∧
      ∃ c : Grammar.Class,
        c.tokens = Reader.significant (Scanner.ofSource sumSource).run.tokens ∧
          c.tree = sumTree := by
  have scanned : tokenize sumSource = .ok (Scanner.ofSource sumSource).run.tokens := by
    decide +kernel
  have read : ClassTree.ofSource sumSource = .ok sumTree := by rfl
  exact ⟨scanned, ((ClassTree.ofSource_iff_derivation _ _ scanned).1 sumTree).1 read⟩

end JackCompiler
