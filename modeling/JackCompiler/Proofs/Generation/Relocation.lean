import JackCompiler.Generation.Class
import JackCompiler.Proofs.Syntax.Relocation
/-!
# Code has no places

The instructions of a tree do not depend on its places, and neither does the reason for which a tree
is refused. A place only tells where the error is.

        tree    ──code──▶   instructions, or an error
          │ f                    │ =               │ f
          ▼                      ▼                 ▼
        tree'   ──code──▶   instructions, or the error elsewhere
-/

namespace JackCompiler

variable {f : Position → Position}

/-! ### What generation gives -/

/-- What generation gives, with an error about another place. -/
def Generated.relocate {α : Type} (f : Position → Position) (x : Generated α) : Generated α :=
  x.mapError (CompileError.relocate f)

section

variable {α β : Type}

@[simp] theorem Generated.relocate_pure (a : α) : Generated.relocate f (pure a) = pure a := rfl

/-- An error ends what is generated by parts, whichever part it is in. -/
@[simp] theorem Generated.relocate_bind (x : Generated α) (k : α → Generated β) :
    Generated.relocate f (x >>= k) = Generated.relocate f x >>= fun a => (k a).relocate f := by
  cases x <;> rfl

@[simp] theorem Generated.relocate_map (x : Generated α) (k : α → β) :
    Generated.relocate f (k <$> x) = k <$> Generated.relocate f x := by
  cases x <;> rfl

end

@[simp] theorem stringCode_relocate (value : String) :
    Generated.relocate f (stringCode value) = stringCode value := by
  rw [stringCode]
  split <;> rfl

@[simp] theorem Site.lookup_relocate (site : Site) (name : String) (position : Option Position) :
    (site.lookup name position).relocate f = site.lookup name (position.map f) := by
  rw [lookup, lookup]
  split <;> rfl

@[simp] theorem Site.receiver_relocate (site : Site) (position : Option Position) :
    (site.receiver position).relocate f = site.receiver (position.map f) := by
  rw [receiver, receiver]
  split <;> rfl

/-! ### Expressions -/

mutual

theorem Expr.code_relocate (site : Site) : ∀ e : Expr,
    (e.relocate f).code site = (e.code site).relocate f
  | .constant _ _ | .boolean _ | .null => rfl
  | .string value => by simp [Expr.code]
  | .this position => by simp [Expr.code]
  | .reference name position => by simp [Expr.code]
  | .binary op left right position => by
    simp [Expr.code, left.code_relocate site, right.code_relocate site]
  | .unary op operand => by simp [Expr.code, operand.code_relocate site]
  | .call name arguments position => by
    rw [Expr.relocate, Expr.code, Expr.code, argumentsCode_relocate site arguments]
    split <;> simp
  | .methodCall (.this place) name arguments position => by
    rw [Expr.relocate, Expr.relocate, Expr.code, Expr.code, argumentsCode_relocate site arguments]
    simp
  | .methodCall (.reference object place) name arguments position => by
    rw [Expr.relocate, Expr.relocate, Expr.code, Expr.code, argumentsCode_relocate site arguments]
    split
    · split
      · rfl
      · simp
    · simp
  | .methodCall (.constant ..) _ _ _ | .methodCall (.boolean _) _ _ _
  | .methodCall (.string _) _ _ _ | .methodCall .null _ _ _ | .methodCall (.binary ..) _ _ _
  | .methodCall (.unary ..) _ _ _ | .methodCall (.call ..) _ _ _
  | .methodCall (.methodCall ..) _ _ _ | .methodCall (.index ..) _ _ _ => rfl
  | .index target subscript => by
    simp [Expr.code, target.code_relocate site, subscript.code_relocate site]

theorem argumentsCode_relocate (site : Site) : ∀ es : List Expr,
    argumentsCode site (relocateAll f es) = (argumentsCode site es).relocate f
  | [] => rfl
  | e :: es => by
    rw [relocateAll, argumentsCode, argumentsCode, e.code_relocate site,
      argumentsCode_relocate site es]
    simp

end

/-! ### Statements -/

mutual

theorem Stmt.code_relocate (className : String) : ∀ (s : Stmt) (frame : Frame),
    (s.relocate f).code className frame = (s.code className frame).relocate f
  | .declare d, frame => rfl
  | .assign name value position, frame => by simp [Stmt.code, Expr.code_relocate]
  | .assignElement name subscript value position, frame => by
    simp [Stmt.code, Expr.code_relocate]
  | .ifThen condition body, frame => by
    rw [Stmt.relocate, Stmt.code, Stmt.code, Expr.code_relocate]
    simp only [blockCode_relocate className body, Generated.relocate_bind,
      Generated.relocate_pure]
  | .ifElse condition body alternative, frame => by
    rw [Stmt.relocate, Stmt.code, Stmt.code, Expr.code_relocate]
    simp only [blockCode_relocate className body, blockCode_relocate className alternative,
      Generated.relocate_bind, Generated.relocate_pure]
  | .repeatWhile condition body, frame => by
    rw [Stmt.relocate, Stmt.code, Stmt.code, Expr.code_relocate]
    simp only [blockCode_relocate className body, Generated.relocate_bind,
      Generated.relocate_pure]
  | .perform call position, frame => by simp [Stmt.code, Expr.code_relocate]
  | .giveBack none position, frame => rfl
  | .giveBack (some value) position, frame => by simp [Stmt.code, Expr.code_relocate]

theorem blockCode_relocate (className : String) : ∀ (ss : List Stmt) (frame : Frame),
    blockCode className (relocateBlock f ss) frame = (blockCode className ss frame).relocate f
  | [], _ => rfl
  | s :: ss, frame => by
    rw [relocateBlock, blockCode, blockCode, s.code_relocate className]
    simp only [blockCode_relocate className ss, Generated.relocate_bind, Generated.relocate_pure]

end

/-! ### Classes -/

@[simp] theorem Scope.withParameters_relocate (s : Scope) (parameters : List Parameter) :
    s.withParameters (parameters.map (Parameter.relocate f)) = s.withParameters parameters := by
  rw [withParameters, withParameters, List.foldl_map]
  rfl

@[simp] theorem ClassTree.table_relocate (c : ClassTree) : (c.relocate f).table = c.table := by
  rw [table, table, relocate, List.foldl_map]
  congr 1
  funext t m
  cases m <;> rfl

@[simp] theorem ClassTree.routines_relocate (c : ClassTree) :
    (c.relocate f).routines = c.routines.map (Routine.relocate f) := by
  rw [routines, routines, relocate, List.filterMap_map, List.map_filterMap]
  congr 1
  funext m
  cases m <;> rfl

theorem Routine.code_relocate (className : String) (table : Table) (r : Routine) :
    (r.relocate f).code className table = (r.code className table).relocate f := by
  rw [Routine.code, Routine.code, relocate, Scope.withParameters_relocate, ← relocateBlock_eq,
    blockCode_relocate, Generated.relocate_bind]
  rfl

theorem Generator.finishRoutines_relocate (className : String) (table : Table) (g : Generator)
    (rs : List Routine) :
    finishRoutines className table g (rs.map (Routine.relocate f)) =
      ((finishRoutines className table g rs).1,
        (finishRoutines className table g rs).2.map (CompileError.relocate f)) := by
  induction rs generalizing g with
  | nil => rfl
  | cons r rs ih =>
    rw [List.map_cons, finishRoutines, finishRoutines, Routine.code_relocate]
    cases r.code className table with
    | ok code => exact ih _
    | error e => rfl

/-- **The chunk of a class does not depend on places, and an error only by its own.** -/
theorem ClassTree.chunk_relocate (c : ClassTree) : (c.relocate f).chunk = c.chunk.relocate f := by
  have name : (c.relocate f).name = c.name := rfl
  rw [chunk, chunk, Generator.generate, Generator.generate, table_relocate, routines_relocate,
    Generator.finishRoutines_relocate, name]
  rcases Generator.finishRoutines c.name c.table .fresh c.routines with ⟨g, _ | e⟩ <;> rfl

end JackCompiler
