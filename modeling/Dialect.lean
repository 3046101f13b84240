import Dialect.Build
import Dialect.Command
import Dialect.Compilation
import Dialect.Config
import Dialect.Cut
import Dialect.Diagnostic
import Dialect.Emission
import Dialect.Emission.Bound
import Dialect.Emission.Construction
import Dialect.Emission.CountingLoop
import Dialect.Emission.Import
import Dialect.Emission.Rendering
import Dialect.Emission.Statement
import Dialect.Erasure
import Dialect.FileSystem
import Dialect.Grammar
import Dialect.Grammar.Reading
import Dialect.Grammar.Writing
import Dialect.Json
import Dialect.Json.Magnitude
import Dialect.Json.Normal
import Dialect.Json.Parsing
import Dialect.Json.Record
import Dialect.Json.Writing
import Dialect.Loading
import Dialect.Main
import Dialect.Parsing.Binding
import Dialect.Parsing.Class
import Dialect.Parsing.Cursor
import Dialect.Parsing.Expression
import Dialect.Parsing.Import
import Dialect.Parsing.Lexeme
import Dialect.Parsing.Operator
import Dialect.Parsing.Program
import Dialect.Parsing.Semicolon
import Dialect.Parsing.Statement
import Dialect.Parsing.Type
import Dialect.Path
import Dialect.Program
import Dialect.Program.Faults
import Dialect.Program.Reading
import Dialect.Proofs.Shift
import Dialect.Proofs.Silence
import Dialect.Proofs.Slice
import Dialect.Proofs.SyntaxErrors
import Dialect.Qualifier
import Dialect.Quotation
import Dialect.Replacement
import Dialect.Resolution
import Dialect.Span
import Dialect.Support
import Dialect.Template
import Dialect.Text.Affix
import Dialect.Text.Alphanumeric
import Dialect.Text.Blank
import Dialect.Text.Occurrence
import Dialect.Tree
import Dialect.Proofs.Alignment
import Dialect.Proofs.Translation
import Dialect.Proofs.Outline
import Dialect.Proofs.Provenance
import Dialect.Proofs.Layout
import Dialect.Proofs.Indentation
import Dialect.Proofs.Bodies
import Dialect.Proofs.Locations
import Dialect.Proofs.Discovery
import Dialect.Proofs.FileEffects
import Dialect.Proofs.Outputs
import Dialect.Proofs.RoundTrip
import Dialect.Proofs.Occurrences
import Dialect.Proofs.Words
import Dialect.Proofs.Braces
import Dialect.Proofs.ModulePaths
import Dialect.Proofs.Places
import Dialect.Proofs.Qualifiers
import Dialect.Proofs.ImportedModules
import Dialect.Proofs.Numerals
import Dialect.Proofs.Counting
import Dialect.Proofs.Nesting
import Dialect.Proofs.NestedReading
import Dialect.Proofs.NormalForms
import Dialect.Proofs.RecordFields
import Dialect.Proofs.InlineGrammars
import Dialect.Proofs.Operands
import Dialect.Proofs.KeptText
import Dialect.Proofs.Keywords
import Dialect.Proofs.Initializers
import Dialect.Proofs.Copying
import Dialect.Proofs.Arithmetic
import Dialect.Proofs.ArithmeticText
import Dialect.Proofs.AdjustedBounds
import Dialect.Proofs.Templates
import Dialect.Proofs.Erasing
import Dialect.Proofs.FileLookup
import Dialect.Proofs.Stripping
import Dialect.Proofs.Padding
import Dialect.Proofs.Leftovers
import Dialect.Proofs.OwnValues
import Dialect.Proofs.GrammarDocuments
import Dialect.Proofs.FunctionLiterals
import Dialect.Proofs.ClassLayout
import Dialect.Proofs.Sequences
import Dialect.Proofs.WorkingDirectories
import Dialect.Proofs.Aliases
