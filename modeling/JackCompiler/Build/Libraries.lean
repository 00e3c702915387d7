import JackCompiler.Build.Arguments
import JackCompiler.Build.ReportReading
/-!
# What the program takes from libraries

Arguments are read, and reports are turned into texts and back, by libraries. The program is written
over any that do so; it reads no report itself. The readings and writings of this library are one
choice.
-/

namespace JackCompiler

/-- The libraries of a program. -/
structure Libraries where
  /-- What arguments ask for. -/
  readArguments : List String → Except Dismissal Options
  /-- The text of a report, or why there is none. -/
  encode : Report → Except String String
  /-- The report that a text gives. -/
  decode : String → Option Report

namespace Libraries

/-- The readings and writings of this library. -/
def standard : Libraries where
  readArguments := Options.ofArguments
  encode r := .ok r.json
  decode text := (Report.ofJson text).toOption

end Libraries

end JackCompiler
