import JackCompiler.Generation.Class
import JackCompiler.Syntax.Parse
/-!
# Compiling a source text

A text is read as a class, and the class is turned into a chunk. The first error ends both.
-/

namespace JackCompiler

/-- The chunk of a source text, or the first error in it. -/
def compile (source : String) : Except CompileError Chunk := do
  let tree ← ClassTree.ofSource source
  tree.chunk

end JackCompiler
