import JackCompiler.Proofs.Generation.Pieces
/-!
# Code without jumps

The instructions of an expression push, pop, compute and call, and nothing else. Jumps and labels
come from statements alone.
-/

namespace JackCompiler

/-- Whether an instruction neither jumps nor is a place to jump to. A return jumps. -/
def Instruction.isPlain : Instruction → Bool
  | push .. | pop .. | operate _ | call .. | function .. => true
  | label _ | goto _ | ifGoto _ | giveBack => false

/-- Whether no instruction of a piece of code jumps or is a place to jump to. -/
def PlainCode (code : List Instruction) : Prop := ∀ i ∈ code, i.isPlain

theorem plainCode_append {a b : List Instruction} :
    PlainCode (a ++ b) ↔ PlainCode a ∧ PlainCode b := List.forall_mem_append

theorem plainCode_cons {i : Instruction} {code : List Instruction} :
    PlainCode (i :: code) ↔ i.isPlain ∧ PlainCode code := List.forall_mem_cons

theorem plainCode_singleton {i : Instruction} : PlainCode [i] ↔ i.isPlain := List.forall_mem_singleton

theorem selectElement_plain : PlainCode selectElement := by
  simp [selectElement, PlainCode, Instruction.isPlain]

/-- The pieces of an expression are plain. -/
theorem Site.assembles_plain (site : Site) : site.Assembles PlainCode where
  nil := List.forall_mem_nil _
  append ha hb := plainCode_append.2 ⟨ha, hb⟩
  constant _ := plainCode_singleton.2 rfl
  operation _ := plainCode_singleton.2 rfl
  call _ _ := plainCode_singleton.2 rfl
  object _ := plainCode_singleton.2 rfl
  variable_ _ := plainCode_singleton.2 rfl
  element := plainCode_append.2 ⟨selectElement_plain, plainCode_singleton.2 rfl⟩

/-- The instructions of an expression are plain. -/
theorem Expr.code_plain {site : Site} {e : Expr} {code : List Instruction}
    (h : e.code site = .ok code) : PlainCode code := Expr.code_assembles site.assembles_plain h

end JackCompiler
