import JackCompiler.Proofs.Lexeme.Values
import JackCompiler.Proofs.Rendering.Form
/-!
# The words in the form of a tree

The words in the S-expression of a tree are words of the grammar, operators, numbers and the names
in the tree. None of the former is broken by a space, a parenthesis or a quote, so no word is if no
name is, and no identifier is.

        do Output.printString("(a b)");        do   call   Output.printString
-/

namespace JackCompiler

open Sexp (IsUnbroken allWords)

/-! ### Words -/

/-- A character that ends a word is in no identifier. -/
theorem IsIdentifier.unbroken {s : String} (h : IsIdentifier s) : IsUnbroken s := by
  refine ⟨h.nonempty, fun c member => ?_⟩
  rw [Bool.eq_false_iff, ne_eq, Sexp.isMark_iff]
  rintro (rfl | rfl | rfl | rfl)
  · exact h.notMem (b := 32) (by decide) (by decide) member
  · exact h.notMem (b := 40) (by decide) (by decide) member
  · exact h.notMem (b := 41) (by decide) (by decide) member
  · exact h.notMem (b := 34) (by decide) (by decide) member

theorem unbroken_digits {s : String} (h : IsDigits s) : IsUnbroken s := by
  refine ⟨h.1, fun c member => ?_⟩
  have digit := h.2 c member
  rw [Bool.eq_false_iff, ne_eq, Sexp.isMark_iff]
  rintro (rfl | rfl | rfl | rfl) <;> cases digit

theorem BinaryOp.unbroken (op : BinaryOp) : IsUnbroken op.text := by
  cases op <;> decide

theorem UnaryOp.unbroken (op : UnaryOp) : IsUnbroken op.text := by
  cases op <;> decide

theorem RoutineKind.unbroken (kind : RoutineKind) : IsUnbroken kind.text := by
  cases kind <;> decide

theorem JackType.unbroken {type : JackType} (h : ∀ n ∈ type.identifiers, IsUnbroken n) :
    IsUnbroken type.name := by
  cases type with
  | named name => exact h name (.head _)
  | int | char | boolean | void => decide

/-- The word for a receiver and a routine. -/
theorem Expr.unbroken_receiver {receiver : Expr} {name : String}
    (h : ∀ n ∈ receiver.identifiers, IsUnbroken n) (routine : IsUnbroken name) :
    IsUnbroken (receiver.receiverWord ++ "." ++ name) := by
  have dot : IsUnbroken "." := by decide
  have this : IsUnbroken "this." := by decide
  cases receiver with
  | reference receiver _ => exact ((h receiver (.head _)).append dot).append routine
  | this _ => exact this.append routine
  | _ => exact dot.append routine

mutual

theorem Expr.unbroken : ∀ {e : Expr}, (∀ n ∈ e.identifiers, IsUnbroken n) →
    ∀ w ∈ e.sexp.words, IsUnbroken w
  | .constant value _, _ => by
    rw [Expr.sexp, Sexp.words, List.forall_mem_singleton]
    exact unbroken_digits (isDigits_toString value.toNat)
  | .boolean value, _ => by
    rw [Expr.sexp, Sexp.words, List.forall_mem_singleton]
    cases value <;> decide
  | .string value, _ => by
    rw [Expr.sexp, Sexp.words]
    exact List.forall_mem_nil _
  | .null, _ | .this _, _ => by
    rw [Expr.sexp, Sexp.words, List.forall_mem_singleton]
    decide
  | .reference name _, h => by
    rw [Expr.sexp, Sexp.words]
    exact h
  | .binary op left right _, h => by
    obtain ⟨hl, hr⟩ := List.forall_mem_append.1 h
    simpa [Expr.sexp, Sexp.words, allWords, or_imp, forall_and] using
      ⟨op.unbroken, Expr.unbroken hl, Expr.unbroken hr⟩
  | .unary op operand, h => by
    simpa [Expr.sexp, Sexp.words, allWords, or_imp, forall_and] using
      ⟨op.unbroken, Expr.unbroken (e := operand) h⟩
  | .call name arguments _, h => by
    obtain ⟨hn, ha⟩ := List.forall_mem_cons.1 h
    have call : IsUnbroken "call" := by decide
    simpa [Expr.sexp, Sexp.words, allWords, or_imp, forall_and] using
      ⟨call, hn, unbroken_sexps ha⟩
  | .methodCall receiver name arguments _, h => by
    obtain ⟨hr, h⟩ := List.forall_mem_append.1 h
    obtain ⟨hn, ha⟩ := List.forall_mem_cons.1 h
    have call : IsUnbroken "call" := by decide
    simpa [Expr.sexp, Sexp.words, allWords, or_imp, forall_and] using
      ⟨call, Expr.unbroken_receiver hr hn, unbroken_sexps ha⟩
  | .index target subscript, h => by
    obtain ⟨ht, hs⟩ := List.forall_mem_append.1 h
    have index : IsUnbroken "index" := by decide
    simpa [Expr.sexp, Sexp.words, allWords, or_imp, forall_and] using
      ⟨index, Expr.unbroken ht, Expr.unbroken hs⟩

theorem unbroken_sexps : ∀ {es : List Expr}, (∀ n ∈ allIdentifiers es, IsUnbroken n) →
    ∀ w ∈ allWords (sexps es), IsUnbroken w
  | [], _ => List.forall_mem_nil _
  | e :: es, h => by
    obtain ⟨he, hs⟩ := List.forall_mem_append.1 h
    exact List.forall_mem_append.2 ⟨Expr.unbroken he, unbroken_sexps hs⟩

end

theorem Declaration.unbroken {d : Declaration} (h : ∀ n ∈ d.identifiers, IsUnbroken n) :
    ∀ w ∈ allWords d.sexps, IsUnbroken w := by
  obtain ⟨type, names⟩ := List.forall_mem_append.1 h
  rw [sexps, allWords, Sexp.allWords_map_word]
  exact List.forall_mem_cons.2 ⟨JackType.unbroken type, names⟩

mutual

theorem Stmt.unbroken : ∀ {s : Stmt}, (∀ n ∈ s.identifiers, IsUnbroken n) →
    ∀ w ∈ s.sexp.words, IsUnbroken w
  | .declare d, h => by
    have var : IsUnbroken "var" := by decide
    exact List.forall_mem_cons.2 ⟨var, Declaration.unbroken h⟩
  | .assign name value _, h => by
    obtain ⟨hn, hv⟩ := List.forall_mem_cons.1 h
    have let_ : IsUnbroken "let" := by decide
    simpa [Stmt.sexp, Sexp.words, allWords] using ⟨let_, hn, Expr.unbroken hv⟩
  | .assignElement name subscript value _, h => by
    obtain ⟨h, hv⟩ := List.forall_mem_append.1 h
    obtain ⟨hn, hs⟩ := List.forall_mem_cons.1 h
    have let_ : IsUnbroken "let" := by decide
    have index : IsUnbroken "index" := by decide
    simpa [Stmt.sexp, Sexp.words, allWords, or_imp, forall_and] using
      ⟨let_, index, hn, Expr.unbroken hs, Expr.unbroken hv⟩
  | .ifThen condition body, h => by
    obtain ⟨hc, hb⟩ := List.forall_mem_append.1 h
    have if_ : IsUnbroken "if" := by decide
    have block : IsUnbroken "block" := by decide
    simpa [Stmt.sexp, Sexp.words, allWords, or_imp, forall_and] using
      ⟨if_, Expr.unbroken hc, block, unbroken_blockSexps hb⟩
  | .ifElse condition body alternative, h => by
    obtain ⟨h, ha⟩ := List.forall_mem_append.1 h
    obtain ⟨hc, hb⟩ := List.forall_mem_append.1 h
    have if_ : IsUnbroken "if" := by decide
    have block : IsUnbroken "block" := by decide
    simpa [Stmt.sexp, Sexp.words, allWords, or_imp, forall_and] using
      ⟨if_, Expr.unbroken hc, block, unbroken_blockSexps hb, block, unbroken_blockSexps ha⟩
  | .repeatWhile condition body, h => by
    obtain ⟨hc, hb⟩ := List.forall_mem_append.1 h
    have while_ : IsUnbroken "while" := by decide
    have block : IsUnbroken "block" := by decide
    simpa [Stmt.sexp, Sexp.words, allWords, or_imp, forall_and] using
      ⟨while_, Expr.unbroken hc, block, unbroken_blockSexps hb⟩
  | .perform call _, h => by
    have do_ : IsUnbroken "do" := by decide
    simpa [Stmt.sexp, Sexp.words, allWords] using ⟨do_, Expr.unbroken (e := call) h⟩
  | .giveBack none _, _ => by
    have return_ : IsUnbroken "return" := by decide
    simpa [Stmt.sexp, Sexp.words, allWords] using return_
  | .giveBack (some value) _, h => by
    have return_ : IsUnbroken "return" := by decide
    simpa [Stmt.sexp, Sexp.words, allWords] using ⟨return_, Expr.unbroken (e := value) h⟩

theorem unbroken_blockSexps : ∀ {ss : List Stmt}, (∀ n ∈ blockIdentifiers ss, IsUnbroken n) →
    ∀ w ∈ allWords (blockSexps ss), IsUnbroken w
  | [], _ => List.forall_mem_nil _
  | s :: ss, h => by
    obtain ⟨hs, hss⟩ := List.forall_mem_append.1 h
    exact List.forall_mem_append.2 ⟨Stmt.unbroken hs, unbroken_blockSexps hss⟩

end

theorem unbroken_parameters {ps : List Parameter}
    (h : ∀ n ∈ ps.flatMap (·.identifiers), IsUnbroken n) :
    ∀ w ∈ allWords (ps.map Parameter.sexp), IsUnbroken w := by
  induction ps with
  | nil => exact List.forall_mem_nil _
  | cons p ps ih =>
    obtain ⟨first, others⟩ := List.forall_mem_append.1 h
    obtain ⟨type, name⟩ := List.forall_mem_append.1 first
    have words : ∀ w ∈ p.sexp.words, IsUnbroken w := by
      simpa [Parameter.sexp, Sexp.words, allWords] using
        ⟨JackType.unbroken type, name p.name (.head _)⟩
    exact List.forall_mem_append.2 ⟨words, ih others⟩

theorem Routine.unbroken {r : Routine} (h : ∀ n ∈ r.identifiers, IsUnbroken n) :
    ∀ w ∈ r.sexp.words, IsUnbroken w := by
  obtain ⟨h, body⟩ := List.forall_mem_append.1 h
  obtain ⟨type, h⟩ := List.forall_mem_append.1 h
  obtain ⟨name, parameters⟩ := List.forall_mem_cons.1 h
  have block : IsUnbroken "block" := by decide
  simpa [Routine.sexp, Sexp.words, allWords, or_imp, forall_and] using
    ⟨r.kind.unbroken, JackType.unbroken type, name, unbroken_parameters parameters, block,
      unbroken_blockSexps body⟩

theorem Member.unbroken {m : Member} (h : ∀ n ∈ m.identifiers, IsUnbroken n) :
    ∀ w ∈ m.sexp.words, IsUnbroken w := by
  have static : IsUnbroken "static" := by decide
  have field : IsUnbroken "field" := by decide
  cases m with
  | shared d => exact List.forall_mem_cons.2 ⟨static, Declaration.unbroken h⟩
  | perObject d => exact List.forall_mem_cons.2 ⟨field, Declaration.unbroken h⟩
  | routine r => exact Routine.unbroken h

/-- **The words in the form of a class are words** if the names in it are. -/
theorem ClassTree.unbroken {c : ClassTree} (h : ∀ n ∈ c.identifiers, IsUnbroken n) :
    ∀ w ∈ c.sexp.words, IsUnbroken w := by
  obtain ⟨name, members⟩ := List.forall_mem_cons.1 h
  have each : ∀ ms : List Member, (∀ n ∈ ms.flatMap (·.identifiers), IsUnbroken n) →
      ∀ w ∈ allWords (ms.map Member.sexp), IsUnbroken w := by
    intro ms names
    induction ms with
    | nil => exact List.forall_mem_nil _
    | cons m ms ih =>
      obtain ⟨first, others⟩ := List.forall_mem_append.1 names
      exact List.forall_mem_append.2 ⟨Member.unbroken first, ih others⟩
  have class_ : IsUnbroken "class" := by decide
  exact List.forall_mem_cons.2 ⟨class_, List.forall_mem_cons.2 ⟨name, each c.members members⟩⟩

end JackCompiler
