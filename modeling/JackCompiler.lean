import JackCompiler.Build.ReportReading
import JackCompiler.Proofs.Build.Reports
import JackCompiler.Files.World
import JackCompiler.Lexeme.TokenBuffer
import JackCompiler.Main
import JackCompiler.Proofs.Execution.ExpressionCode
import JackCompiler.Proofs.Generation.Labels
import JackCompiler.Proofs.Execution.ControlFlow
import JackCompiler.Proofs.Execution.StatementCode
import JackCompiler.Proofs.Execution.RoutineCode
import JackCompiler.Proofs.Grammar.Derivation
import JackCompiler.Proofs.Syntax.Steps
import JackCompiler.Proofs.Grammar.Completeness
import JackCompiler.Proofs.Grammar.Soundness
import JackCompiler.Proofs.Grammar.Unambiguity
import JackCompiler.Proofs.Lexeme.Classes
import JackCompiler.Proofs.Lexeme.Recognition
import JackCompiler.Proofs.Lexeme.Rounds
import JackCompiler.Proofs.Lexeme.MaximalMunch
import JackCompiler.Proofs.Lexeme.Spelling
import JackCompiler.Proofs.Grammar.Parsing
import JackCompiler.Proofs.Syntax.Completion
import JackCompiler.Proofs.Syntax.ViablePrefix
import JackCompiler.Proofs.Generation.Routines
import JackCompiler.Proofs.Execution.StackHeight
import JackCompiler.Proofs.Generation.Frames
import JackCompiler.Proofs.Generation.LocalCounts
import JackCompiler.Proofs.Grammar.Located
import JackCompiler.Proofs.Lexeme.Lossless
import JackCompiler.Proofs.Refusals
import JackCompiler.Proofs.Names.Slots
import JackCompiler.Proofs.Names.Declarations
import JackCompiler.Proofs.Text.Encoding
import JackCompiler.Proofs.Text.Places
import JackCompiler.Proofs.Stack.Rereading
import JackCompiler.Proofs.Grammar.Identifiers
import JackCompiler.Proofs.Legibility
import JackCompiler.Proofs.Generation.Reuse
import JackCompiler.Proofs.Names.Mentions
import JackCompiler.Proofs.Names.Resolution
import JackCompiler.Proofs.Generation.Accesses
import JackCompiler.Proofs.Generation.Calls
import JackCompiler.Proofs.Generation.Parameters
import JackCompiler.Proofs.Generation.Visibility
import JackCompiler.Proofs.Build.Messages
import JackCompiler.Proofs.Generation.Jumps
import JackCompiler.Proofs.Build.Collisions
import JackCompiler.Proofs.Execution.RunningOn
import JackCompiler.Proofs.Names.Visible
import JackCompiler.Proofs.Generation.Acceptance
import JackCompiler.Proofs.Build.Telling
import JackCompiler.Proofs.Syntax.Relocation
import JackCompiler.Proofs.Generation.Relocation
import JackCompiler.Proofs.Lexeme.Lookahead
import JackCompiler.Proofs.Lexeme.Layout
import JackCompiler.Proofs.Layout
import JackCompiler.Proofs.Spacing
import JackCompiler.Proofs.Constants
import JackCompiler.Proofs.Stack.Lines
import JackCompiler.Proofs.Lexeme.Buffering
import JackCompiler.Proofs.Generation.Blocks
import JackCompiler.Proofs.Generation.Renaming
import JackCompiler.Proofs.Text.Truncation
import JackCompiler.Proofs.Lexeme.Rosters
import JackCompiler.Proofs.Names.Allotment
import JackCompiler.Proofs.Lexeme.Quoting
import JackCompiler.Proofs.Lexeme.Values
import JackCompiler.Proofs.Rendering.SExpressions
import JackCompiler.Proofs.Rendering.Form
import JackCompiler.Proofs.Rendering.Lexicon
import JackCompiler.Proofs.Rendering.Strings
import JackCompiler.Proofs.Rendering.Reading
import JackCompiler.Proofs.Rendering.Fidelity
import JackCompiler.Proofs.Lexeme.Feeding
import JackCompiler.Proofs.Descent.Ending
import JackCompiler.Proofs.Files.Laws
import JackCompiler.Proofs.Files.Segments
import JackCompiler.Proofs.Files.Worlds
