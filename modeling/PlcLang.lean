import PlcLang.Text.UnicodeTable
import PlcLang.Text.Alphabet
import PlcLang.Text.Escape
import PlcLang.Text.Spelled
import PlcLang.Text.Lines
import PlcLang.Bindings
import PlcLang.Decimal
import PlcLang.Decimal.Notation
import PlcLang.Token
import PlcLang.Token.Lexer
import PlcLang.Syntax
import PlcLang.Syntax.Parser
import PlcLang.Syntax.Printer
import PlcLang.Syntax.Agreement
import PlcLang.Source
import PlcLang.Diagnostic
import PlcLang.Failure
import PlcLang.Scope
import PlcLang.Scope.Reserved
import PlcLang.Typing.Types
import PlcLang.Typing.CheckError
import PlcLang.Typing.Checker
import PlcLang.Value
import PlcLang.Host
import PlcLang.Execution.Fault
import PlcLang.Execution.Operators
import PlcLang.Execution.Interpreter
import PlcLang.Session
import PlcLang.Highlight
import PlcLang.Document
import PlcLang.Files
import PlcLang.Toml
import PlcLang.Toml.Moment
import PlcLang.Toml.Reader
import PlcLang.Settings
import PlcLang.Scaffold
import PlcLang.Text.Terminal
import PlcLang.Syntax.Outline
import PlcLang.CommandLine.Console
import PlcLang.CommandLine.Arguments
import PlcLang.CommandLine
import PlcLang.Main
import PlcLang.Proofs.Lexical.Classes
import PlcLang.Proofs.Lexical.Scan
import PlcLang.Proofs.Lexical.Segmentation
import PlcLang.Proofs.Lexical.Values
import PlcLang.Proofs.Lexical.MaximalCut
import PlcLang.Proofs.Lexical.Blame
import PlcLang.Proofs.Grammar.Derivation
import PlcLang.Proofs.Grammar.Parts
import PlcLang.Proofs.Grammar.Words
import PlcLang.Proofs.Grammar.Soundness
import PlcLang.Proofs.Grammar.Completeness
import PlcLang.Proofs.Grammar.Agreement
import PlcLang.Proofs.Syntax.Marks
import PlcLang.Proofs.Syntax.Subexpressions
import PlcLang.Proofs.Printing.Literals
import PlcLang.Proofs.Printing.Lexing
import PlcLang.Proofs.Printing.Expressions
import PlcLang.Proofs.Printing.Lines
import PlcLang.Proofs.Printing.Breaks
import PlcLang.Proofs.Printing.Statements
import PlcLang.Proofs.Printing.Programs
import PlcLang.Proofs.Printing.RoundTrip
import PlcLang.Proofs.Printing.Quoting
import PlcLang.Proofs.Printing.Numbers
import PlcLang.Proofs.Computations
import PlcLang.Proofs.Decimals.Value
import PlcLang.Proofs.Decimals.Division
import PlcLang.Proofs.Scoping.Chains
import PlcLang.Proofs.Scoping.Relabelling
import PlcLang.Proofs.Relabelling.Symbols
import PlcLang.Proofs.Typing.Plain
import PlcLang.Proofs.Typing.Likeness
import PlcLang.Proofs.Typing.Watched
import PlcLang.Proofs.Typing.Rules
import PlcLang.Proofs.Typing.Soundness
import PlcLang.Proofs.Typing.Acceptance
import PlcLang.Proofs.Typing.Declarative
import PlcLang.Proofs.Typing.Decision.Expressions
import PlcLang.Proofs.Typing.Decision.Statements
import PlcLang.Proofs.Typing.Decision.Programs
import PlcLang.Proofs.Execution.Watched
import PlcLang.Proofs.Execution.Erasure
import PlcLang.Proofs.Execution.Returning
import PlcLang.Proofs.Execution.Agreement
import PlcLang.Proofs.Execution.Preservation
import PlcLang.Proofs.Execution.Programs
import PlcLang.Proofs.Execution.Sessions
import PlcLang.Proofs.Execution.Resolution
import PlcLang.Proofs.Execution.TypeSafety
import PlcLang.Proofs.Execution.Comparisons
import PlcLang.Proofs.Execution.StrictSafety
import PlcLang.Proofs.Execution.Scales
import PlcLang.Proofs.Execution.Control
import PlcLang.Proofs.Execution.Likeness
import PlcLang.Proofs.Execution.Steady
import PlcLang.Proofs.Grammar.Lookahead
import PlcLang.Proofs.Grammar.Progress
import PlcLang.Proofs.Grammar.Viability
import PlcLang.Proofs.Layout.Tokens
import PlcLang.Proofs.Layout.Spacing
import PlcLang.Proofs.Layout.Margins
import PlcLang.Proofs.Layout.Indentation
import PlcLang.Proofs.Layout.LineByLine
import PlcLang.Proofs.Printing.Indentation
import PlcLang.Proofs.Layout.Texts
import PlcLang.Proofs.Layout.Parsing
import PlcLang.Proofs.Grammar.FirstImpossible
import PlcLang.Proofs.Relabelling.Trees
import PlcLang.Proofs.Relabelling.Arenas
import PlcLang.Proofs.Relabelling.Checking
import PlcLang.Proofs.Relabelling.Running
import PlcLang.Proofs.Relabelling.Sessions
import PlcLang.Proofs.Layout.Independence
import PlcLang.Proofs.Relabelling.Renaming
import PlcLang.Proofs.Scoping.Discipline
import PlcLang.Proofs.Scoping.GuardedRuns
import PlcLang.Proofs.Scoping.GuardedChecks
import PlcLang.Proofs.Scoping.Stack
import PlcLang.Proofs.Scoping.SealedRuns
import PlcLang.Proofs.Scoping.Locals
import PlcLang.Proofs.Scoping.Confinement
import PlcLang.Proofs.Ordering.Bindings
import PlcLang.Proofs.Reference.Semantics
import PlcLang.Proofs.Reference.Mirrors
import PlcLang.Proofs.Reference.Runs
import PlcLang.Proofs.Reference.Soundness
import PlcLang.Proofs.Reference.Rules
import PlcLang.Proofs.Reference.Completeness
import PlcLang.Proofs.Reference.Refinement
import PlcLang.Proofs.Ordering.Methods
import PlcLang.Proofs.Breakdowns.Exactness
import PlcLang.Proofs.Breakdowns.Lexing
import PlcLang.Proofs.Breakdowns.Parsing
import PlcLang.Proofs.Breakdowns.Checking
import PlcLang.Proofs.Breakdowns.Running
import PlcLang.Proofs.Breakdowns.Texts
import PlcLang.Proofs.Grammar.Origins
import PlcLang.Proofs.Diagnostics.Lines
import PlcLang.Proofs.Diagnostics.Anchors
import PlcLang.Proofs.Diagnostics.Rendering
import PlcLang.Proofs.Editing.Histories
import PlcLang.Proofs.Editing.Replacement
import PlcLang.Proofs.Editing.Hovering
import PlcLang.Proofs.Diagnostics.Alignment
import PlcLang.Proofs.Scoping.RootScope
import PlcLang.Proofs.Execution.CallGraph
import PlcLang.Proofs.Execution.Halting
import PlcLang.Proofs.CommandLine.FormatCheck
import PlcLang.Proofs.Highlighting.Boundaries
import PlcLang.Proofs.Highlighting.Identifiers
import PlcLang.Proofs.Toml.Strings
import PlcLang.Proofs.Toml.Tables
import PlcLang.Proofs.Projects.Scaffolding
import PlcLang.Proofs.Diagnostics.Positions
import PlcLang.Proofs.Scoping.Ancestry
import PlcLang.Proofs.Grammar.Ownership
import PlcLang.Proofs.Grammar.SourceOrder
import PlcLang.Proofs.Printing.ReadBack
import PlcLang.Proofs.Grammar.Termination
