import JackCompiler.Build.Report
import JackCompiler.Json.Record
/-!
# Reading a report

A report is read back from JSON. All its fields are needed, apart from the output path and the error
of an entry.
-/

namespace JackCompiler

open Json

/-- An entry that is being read. -/
structure EntryDraft where
  path : Option String := none
  output : Option (Option String) := none
  routines : Option UInt64 := none
  instructions : Option UInt64 := none
  error : Option (Option String) := none

namespace EntryDraft

/-- The fields of an entry. -/
def fields : List (FieldReading EntryDraft) := [
  ⟨"path", (·.path.isSome), fun d => do return { d with path := some (← Reading.text) }⟩,
  ⟨"output", (·.output.isSome),
    fun d => do return { d with output := some (← Reading.optionalText) }⟩,
  ⟨"routines", (·.routines.isSome),
    fun d => do return { d with routines := some (← Reading.count) }⟩,
  ⟨"instructions", (·.instructions.isSome),
    fun d => do return { d with instructions := some (← Reading.count) }⟩,
  ⟨"error", (·.error.isSome), fun d => do return { d with error := some (← Reading.optionalText) }⟩]

/-- The entry, if nothing is missing. -/
def finish (d : EntryDraft) : Option FileEntry := do
  return ⟨← d.path, d.output.join, ← d.routines, ← d.instructions, d.error.join⟩

end EntryDraft

/-- Takes an entry. -/
def FileEntry.reading : Reading FileEntry := Reading.record EntryDraft.fields {} EntryDraft.finish

/-- A report that is being read. -/
structure ReportDraft where
  total : Option UInt64 := none
  succeeded : Option UInt64 := none
  failed : Option UInt64 := none
  files : Option (List FileEntry) := none

namespace ReportDraft

/-- The fields of a report. -/
def fields : List (FieldReading ReportDraft) := [
  ⟨"total", (·.total.isSome), fun d => do return { d with total := some (← Reading.count) }⟩,
  ⟨"succeeded", (·.succeeded.isSome),
    fun d => do return { d with succeeded := some (← Reading.count) }⟩,
  ⟨"failed", (·.failed.isSome), fun d => do return { d with failed := some (← Reading.count) }⟩,
  ⟨"files", (·.files.isSome),
    fun d => do return { d with files := some (← Reading.list FileEntry.reading) }⟩]

/-- The report, if nothing is missing. -/
def finish (d : ReportDraft) : Option Report := do
  return ⟨← d.total, ← d.succeeded, ← d.failed, ← d.files⟩

end ReportDraft

/-- The report that a text gives as JSON. -/
def Report.ofJson (text : String) : Except Fault Report :=
  Reading.whole (Reading.record ReportDraft.fields {} ReportDraft.finish) text

end JackCompiler
