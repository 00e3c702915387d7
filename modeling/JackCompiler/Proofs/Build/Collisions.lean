import JackCompiler.Proofs.Build.Frame
/-!
# Outputs that share a file

Several output paths can lead to one file: those of sources with one name from different
directories, where there is one directory for all outputs, and any others by way of links or of
names that differ in letter case only. The file has the instructions of the last of them. A device
has none.

        x/A.jack   ──▶   build/A.vm   ──▶  ○
        y/A.jack   ──▶   build/A.vm   ──▶  ○         this one stays
-/

namespace JackCompiler.Build

/-- **A run that succeeds leaves at the end of each output path the instructions of the last file
whose output path leads there**, unless a device stands there, which keeps nothing. So the
instructions of a file are lost only to a later file of the run whose output path leads to the same
file, or to a device. -/
theorem run_outputs {σ : Type} [Host (StateM σ)] [View σ] [LawfulHost σ] (o : Options)
    (report : Report) (s : σ) (silent : o.toStdout = false) (compiled : List CompiledFile)
    (ran : (perform (run o report) s).1.2 = .ok compiled) :
    ∀ f ∈ compiled, ∃ output n, f.output = some output ∧
      reach (perform (run o report) s).2 output = some n ∧
      ((∃ last, IsLast (perform (run o report) s).2 compiled n last ∧
          content (perform (run o report) s).2 n = some (.file last.chunk.text.toUTF8)) ∨
        content s n = some .device ∧ content (perform (run o report) s).2 n = some .device) := by
  obtain ⟨files, pending, tail, course, leaves⟩ := run_course o report s
  obtain ⟨rfl, rfl⟩ := course.of_ok ran
  rw [List.append_nil] at leaves
  intro f among
  have named := leaves.outputs f among
  rw [silent] at named
  obtain ⟨n, reached⟩ := leaves.reached f among _ named
  refine ⟨_, n, named, reached, ?_⟩
  obtain left | ⟨device, changed⟩ := leaves.contents n
  · exact .inl left
  · have here := device f among ⟨_, named, reached⟩
    obtain stays | ⟨free, -⟩ := changed
    · exact .inr ⟨here, stays.trans here⟩
    · exact absurd (here.symm.trans free) nofun

/-- A class with one function that returns a number. -/
def constantSource (n : String) : String :=
  "class A \x7b function int f() \x7b return " ++ n ++ "; \x7d \x7d"

/-- The chunk of this class. -/
def constantChunk (n : UInt16) : Chunk := ⟨[.function "A.f" 0, .push .constant n, .giveBack]⟩

/-- Two directories with a source of one name in each. -/
def twoSources : World where
  workingDirectory := ["home"]
  entries := [(["home"], .directory), (["home", "x"], .directory), (["home", "y"], .directory),
    (["home", "x", "A.jack"], .file (constantSource "1").toUTF8),
    (["home", "y", "A.jack"], .file (constantSource "2").toUTF8)]

/-- Both sources are compiled into one directory. -/
def intoOne : Options := { paths := ["x/A.jack", "y/A.jack"], outDir := some "build" }

theorem perform_intoOne : (perform (run intoOne .empty) twoSources).1.2 = .ok [
    ⟨"x/A.jack", some "build/A.vm", constantChunk 1⟩,
    ⟨"y/A.jack", some "build/A.vm", constantChunk 2⟩] := by
  decide +kernel

theorem run_outputs_intoOne : intoOne.toStdout = false ∧
    ∃ compiled, (perform (run intoOne .empty) twoSources).1.2 = .ok compiled ∧
      compiled.length = 2 ∧
      ∀ f ∈ compiled, ∃ output n, f.output = some output ∧
        reach (perform (run intoOne .empty) twoSources).2 output = some n ∧
        ((∃ last, IsLast (perform (run intoOne .empty) twoSources).2 compiled n last ∧
            content (perform (run intoOne .empty) twoSources).2 n =
              some (.file last.chunk.text.toUTF8)) ∨
          content twoSources n = some .device ∧
            content (perform (run intoOne .empty) twoSources).2 n = some .device) :=
  ⟨rfl, _, perform_intoOne, rfl, run_outputs _ _ _ rfl _ perform_intoOne⟩

/-- One source, and its output is a link to a device that keeps nothing. -/
def linkedToDevice : World where
  workingDirectory := ["home"]
  entries := [(["home"], .directory), (["home", "A.jack"], .file (constantSource "1").toUTF8),
    (["null"], .device .sink)]
  leadsTo place := if place = ["home", "A.vm"] then ["null"] else place

/-- **Outputs are lost**: the first of two that share a file, and one that goes to a device. -/
theorem outputs_lost :
    ((perform (run intoOne .empty) twoSources).1.2 = .ok [
        ⟨"x/A.jack", some "build/A.vm", constantChunk 1⟩,
        ⟨"y/A.jack", some "build/A.vm", constantChunk 2⟩] ∧
      textAt (perform (run intoOne .empty) twoSources).2 "build/A.vm" ≠
        some (constantChunk 1).text) ∧
    ((perform (run besideSource .empty) linkedToDevice).1.2 =
        .ok [⟨"A.jack", some "A.vm", constantChunk 1⟩] ∧
      textAt (perform (run besideSource .empty) linkedToDevice).2 "A.vm" = none) :=
  ⟨⟨perform_intoOne, by decide +kernel⟩, by decide +kernel⟩

end JackCompiler.Build
