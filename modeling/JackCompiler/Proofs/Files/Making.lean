import JackCompiler.Files.Directories
import JackCompiler.Proofs.Files.Laws
/-!
# Making what leads to a directory

Making a directory with all that leads to it adds directories and does nothing else: each of them
was missing, and stands at the end of the path to the directory or of a path in front of it. So much
holds whether the directory can be made or not.

        a/b/.      a is made, and a/b/. is not there yet
        a/../b     a is made and left
-/

namespace JackCompiler

/-- The path is that of the directory, or stands in front of it. -/
inductive OnWay (directory : String) : String → Prop
  | whole : OnWay directory directory
  | parent {path parent : String} (on : OnWay directory path)
    (next : PathName.parent? path = some parent) : OnWay directory parent

/-- Directories are added on the way to one, and nothing else changes. -/
structure Paves {σ : Type} [View σ] (directory : String) (s s' : σ) : Prop where
  kept : ∀ p n, reach s p = some n → reach s' p = some n
  changed : ∀ n, content s' n = content s n ∨ content s n = none ∧
    content s' n = some .directory ∧ ∃ path, OnWay directory path ∧ reach s' path = some n
  printed : printed s' = printed s

namespace Paves

variable {σ : Type} [View σ] {directory path : String} {s s' s'' : σ}

theorem of_still (h : Still s s') : Paves directory s s' :=
  ⟨fun _ _ reached => h.reach ▸ reached, fun n => .inl (congrFun h.content n), h.printed⟩

theorem refl (s : σ) : Paves directory s s := of_still (.refl s)

theorem trans (h : Paves directory s s') (h' : Paves directory s' s'') :
    Paves directory s s'' := by
  refine ⟨fun p n reached => h'.kept p n (h.kept p n reached), fun n => ?_,
    h'.printed.trans h.printed⟩
  obtain same' | ⟨free', made', path, on, reached⟩ := h'.changed n
  · obtain same | ⟨free, made, path, on, reached⟩ := h.changed n
    · exact .inl (same'.trans same)
    · exact .inr ⟨free, same'.trans made, path, on, h'.kept path n reached⟩
  · obtain same | ⟨-, made, -⟩ := h.changed n
    · exact .inr ⟨same ▸ free', made', path, on, reached⟩
    · exact absurd (made.symm.trans free') nofun

/-- One new directory on the way. -/
theorem of_puts {n : Node σ} (on : OnWay directory path) (free : content s n = none)
    (h : Puts path n .directory s s') : Paves directory s s' := by
  refine ⟨h.kept, fun k => ?_, h.printed⟩
  by_cases same : k = n
  · subst same
    exact .inr ⟨free, h.placed, path, on, h.reached⟩
  · exact .inl (h.others k same)

theorem bind {α β : Type} {x : StateM σ α} {f : α → StateM σ β}
    (hx : Paves directory s (perform x s).2)
    (hf : ∀ a s', Paves directory s' (perform (f a) s').2) :
    Paves directory s (perform (x >>= f) s).2 := by
  rw [perform_bind]
  exact hx.trans (hf _ _)

end Paves

namespace Host

section

variable {σ : Type} [Host (StateM σ)] [View σ] [LawfulHost σ] {directory path : String}

theorem paves_isDirectory (s : σ) (path : String) :
    Paves directory s (perform (isDirectory path) s).2 := by
  rw [isDirectory]
  refine Paves.bind (.of_still (LawfulHost.kindOf s path)) fun kind s' => ?_
  split <;> exact .refl s'

theorem paves_unlessDirectory (s : σ) (path : String) (e : FileError) :
    Paves directory s (perform (unlessDirectory path e) s).2 := by
  rw [unlessDirectory]
  refine Paves.bind (paves_isDirectory s path) fun found s' => ?_
  split <;> exact .refl s'

theorem paves_makeDirectory (s : σ) (on : OnWay directory path) :
    Paves directory s (perform (Host.makeDirectory path) s).2 := by
  cases made : (perform (Host.makeDirectory path) s).1 with
  | ok =>
    obtain ⟨n, free, puts⟩ := LawfulHost.makeDirectory_ok s path made
    exact .of_puts on free puts
  | error e => exact .of_still (LawfulHost.makeDirectory_error s path e made)

theorem paves_makeWithin (depth : Nat) (s : σ) (on : OnWay directory path) :
    Paves directory s (perform (makeWithin depth path) s).2 := by
  induction depth generalizing path s with
  | zero => exact paves_makeDirectory s on
  | succ depth ih =>
    rw [makeWithin]
    split
    · exact .refl s
    · refine Paves.bind (paves_makeDirectory s on) fun first s => ?_
      split
      · exact .refl s
      · split
        · -- something is missing: the way is made by the hypothesis, and the directory once more
          split
          · exact .refl s
          · next parent next? =>
            refine Paves.bind (ih s (on.parent next?)) fun way s => ?_
            split
            · exact .refl s
            · refine Paves.bind (paves_makeDirectory s on) fun second s => ?_
              split
              · exact .refl s
              · exact paves_unlessDirectory s _ _
        · exact paves_unlessDirectory s _ _

/-- **Whatever comes of it, directories on the way are all that is made.** -/
theorem paves_makeDirectories (s : σ) (directory : String) :
    Paves directory s (perform (makeDirectories directory) s).2 :=
  paves_makeWithin _ s .whole

end

/-! ### Programs that may fail -/

section

variable {m : Type → Type} [Monad m] [LawfulMonad m] {ε α β : Type}

theorem lift_bind {x : m α} {f : α → ExceptT ε m β} {g : α → m β}
    (h : ∀ a, f a = ExceptT.lift (g a)) : ExceptT.lift x >>= f = ExceptT.lift (x >>= g) := by
  refine ExceptT.ext ?_
  simp [ExceptT.run_bind, h]

theorem lift_pure (a : α) : (pure a : ExceptT ε m α) = ExceptT.lift (pure a) := by
  refine ExceptT.ext ?_
  simp

variable [Host m]

/-- For a program that may fail, the operations of its host are those of the host below. -/
theorem readText_lift (path : String) :
    (readText path : ExceptT ε m (Except FileError String)) = ExceptT.lift (readText path) := by
  refine lift_bind fun bytes => ?_
  split
  · exact lift_pure _
  · split <;> exact lift_pure _

theorem isDirectory_lift (path : String) :
    (isDirectory path : ExceptT ε m Bool) = ExceptT.lift (isDirectory path) := by
  refine lift_bind fun kind => ?_
  split <;> exact lift_pure _

theorem unlessDirectory_lift (path : String) (e : FileError) :
    (unlessDirectory path e : ExceptT ε m (Except FileError Unit)) =
      ExceptT.lift (unlessDirectory path e) := by
  rw [unlessDirectory, isDirectory_lift]
  refine lift_bind fun found => ?_
  split <;> exact lift_pure _

theorem makeWithin_lift (depth : Nat) (path : String) :
    (makeWithin depth path : ExceptT ε m (Except FileError Unit)) =
      ExceptT.lift (makeWithin depth path) := by
  induction depth generalizing path with
  | zero => rfl
  | succ depth ih =>
    rw [makeWithin, makeWithin]
    split
    · exact lift_pure _
    · refine lift_bind fun first => ?_
      split
      · exact lift_pure _
      · split
        · split
          · exact lift_pure _
          · rw [ih]
            refine lift_bind fun way => ?_
            split
            · exact lift_pure _
            · refine lift_bind fun second => ?_
              split
              · exact lift_pure _
              · exact unlessDirectory_lift _ _
        · exact unlessDirectory_lift _ _

theorem makeDirectories_lift (path : String) :
    (makeDirectories path : ExceptT ε m (Except FileError Unit)) =
      ExceptT.lift (makeDirectories path) :=
  makeWithin_lift _ path

end

end Host

end JackCompiler
