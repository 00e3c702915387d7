import JackCompiler.Proofs.Layout
import JackCompiler.Proofs.Refusals
import JackCompiler.Proofs.Rendering.Lexicon
import JackCompiler.Proofs.Rendering.Reading
import JackCompiler.Proofs.Rendering.Strings
/-!
# What is printed tells the class

Two classes that are read from source texts and printed alike are the same but for their places, and
are compiled to the same chunk or refused with the same error elsewhere. The text tells the
S-expression, as identifiers have no spaces and no parentheses and strings no quotes; the
S-expression tells the tree.

        source ──▶ tree ──▶ S-expression ──▶ text
                    ▲            │  ▲          │
                    └── places ──┘  └──────────┘
-/

namespace JackCompiler

/-- The names in a class that is read are identifiers, and its strings have no quotes. -/
theorem ClassTree.ofSource_values {source : String} {tree : ClassTree}
    (h : ofSource source = .ok tree) :
    (∀ n ∈ tree.identifiers, IsIdentifier n) ∧ ∀ t ∈ tree.sexp.quotes, '"' ∉ t.toList := by
  obtain ⟨tokens, read⟩ := tokenize_of_ofSource h
  have all := Scanner.values_of_tokenize read
  rw [(Reader.ofSource_eq read).2] at all
  obtain ⟨c, significant, rfl⟩ := derivation_of_ofSource h
  rw [← c.identifiersOf_tokens, ← c.stringsOf_tokens, significant, Grammar.identifiersOf,
    Grammar.stringsOf, List.forall_mem_map, List.forall_mem_map]
  constructor
  · intro t member
    obtain ⟨inside, kind⟩ := List.mem_filter.1 member
    exact (all t (List.mem_of_mem_filter inside)).1 (by simpa using kind)
  · intro t member
    obtain ⟨inside, kind⟩ := List.mem_filter.1 member
    exact (all t (List.mem_of_mem_filter inside)).2 (by simpa using kind)

/-- What is written for the form of a class that is read can be told apart. -/
theorem ClassTree.sexp_solid {source : String} {tree : ClassTree}
    (h : ofSource source = .ok tree) : tree.sexp.Solid := by
  obtain ⟨names, strings⟩ := ofSource_values h
  exact ⟨unbroken fun n member => (names n member).unbroken, strings⟩

/-- Classes that are printed alike have one form. -/
theorem ClassTree.sexp_eq_of_render {source source' : String} {tree tree' : ClassTree}
    (h : ofSource source = .ok tree) (h' : ofSource source' = .ok tree')
    (same : tree.render = tree'.render) : tree.sexp = tree'.sexp := by
  rw [(ofSource_located h).render_eq, (ofSource_located h').render_eq] at same
  exact (Sexp.write_injective (sexp_solid h) (sexp_solid h') Sexp.stops_nil Sexp.stops_nil
    (String.ofList_injective same)).1

/-- **What is printed tells the class.** Classes that are read from source texts and printed alike
are the same with one place for all, and the texts are compiled to the same chunk or to errors that
differ in their places only. -/
theorem ClassTree.render_tells {source source' : String} {tree tree' : ClassTree}
    (h : ofSource source = .ok tree) (h' : ofSource source' = .ok tree')
    (same : tree.render = tree'.render) :
    (∀ p : Position, tree.relocate (fun _ => p) = tree'.relocate fun _ => p) ∧
      SameButPlaces (compile source) (compile source') := by
  have trees (p : Position) : tree.relocate (fun _ => p) = tree'.relocate fun _ => p := by
    rw [← (ofSource_located h).read (ofSource_values h).1,
      ← (ofSource_located h').read (ofSource_values h').1, sexp_eq_of_render h h' same]
  refine ⟨trees, .of_relocate (f := fun _ => Position.start) ?_⟩
  rw [compile_relocate, compile_relocate, h, h']
  change chunk (tree.relocate _) = chunk (tree'.relocate _)
  rw [trees]

/-- A text that is read as a class printed so. -/
theorem ClassTree.exists_of_render {source text : String}
    (h : (ofSource source).map render = .ok text) :
    ∃ tree, ofSource source = .ok tree ∧ tree.render = text := by
  cases read : ofSource source with
  | ok tree =>
    rw [read] at h
    exact ⟨tree, rfl, Except.ok.inj h⟩
  | error e =>
    rw [read] at h
    cases h

/-- A class with a difference of a negated number in it. -/
def differenceSource : String :=
  "class A \x7b function int f(int n) \x7b return -n - 1; \x7d \x7d"

/-- The class with parentheses that change nothing. -/
def groupedSource : String :=
  "class A \x7b function int f(int n) \x7b return ((-n) - 1); \x7d \x7d"

/-- The parentheses leave no trace in what is printed, and none in what is compiled. -/
theorem groupedSource_tells : ∃ tree tree' : ClassTree,
    ClassTree.ofSource differenceSource = .ok tree ∧
    ClassTree.ofSource groupedSource = .ok tree' ∧ tree.render = tree'.render ∧
    (∀ p : Position, tree.relocate (fun _ => p) = tree'.relocate fun _ => p) ∧
    SameButPlaces (compile differenceSource) (compile groupedSource) := by
  have first : (ClassTree.ofSource differenceSource).map ClassTree.render =
      .ok "(class A (function int f ((int n)) (block (return (- (- n) 1)))))" := by decide +kernel
  have second : (ClassTree.ofSource groupedSource).map ClassTree.render =
      .ok "(class A (function int f ((int n)) (block (return (- (- n) 1)))))" := by decide +kernel
  obtain ⟨tree, read, printed⟩ := ClassTree.exists_of_render first
  obtain ⟨tree', read', printed'⟩ := ClassTree.exists_of_render second
  have same := printed.trans printed'.symm
  exact ⟨tree, tree', read, read', same, ClassTree.render_tells read read' same⟩

end JackCompiler
