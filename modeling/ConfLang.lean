import ConfLang.Text.Position
import ConfLang.Text.Character
import ConfLang.Text.Encoding
import ConfLang.Number.Shortest
import ConfLang.Token
import ConfLang.Problem.Diagnostic
import ConfLang.Token.Lexeme
import ConfLang.Token.Cursor
import ConfLang.Token.Scanner
import ConfLang.Tree.Statement
import ConfLang.Tree.Source
import ConfLang.Reading.Basic
import ConfLang.Reading.Recovery
import ConfLang.Reading.Expression
import ConfLang.Reading.Statement
import ConfLang.Outcome
import ConfLang.Proofs.Growth
import ConfLang.Proofs.Context
import ConfLang.Proofs.Likeness.Basic
import ConfLang.Proofs.Likeness.Token
import ConfLang.Proofs.Likeness.Expression
import ConfLang.Proofs.Likeness.Body
import ConfLang.Proofs.Likeness.Conditional
import ConfLang.Proofs.Likeness.Statement
import ConfLang.Proofs.Placement.Reading
import ConfLang.Proofs.Placement.Diagnostics
import ConfLang.Proofs.Grammar.Language
import ConfLang.Proofs.Grammar.Scan
import ConfLang.Proofs.Grammar.Leads
import ConfLang.Proofs.Grammar.Coverage.Expression
import ConfLang.Proofs.Grammar.Coverage.Body
import ConfLang.Proofs.Grammar.Coverage.Conditional
import ConfLang.Proofs.Grammar.Coverage.Statement
import ConfLang.Proofs.Grammar.Yields
import ConfLang.Proofs.Grammar.Derivation.Expression
import ConfLang.Proofs.Grammar.Derivation.Body
import ConfLang.Proofs.Grammar.Derivation.Conditional
import ConfLang.Proofs.Grammar.Derivation.Statement
import ConfLang.Proofs.Grammar.Exact
import ConfLang.Proofs.Limit.Truncation
import ConfLang.Proofs.Limit.Statements
import ConfLang.Proofs.Bodies.Turn
import ConfLang.Proofs.Bodies.StrayMark
import ConfLang.Proofs.Nesting.Height
import ConfLang.Proofs.Nesting.Within
import ConfLang.Proofs.Nesting.Statement
import ConfLang.Proofs.Nesting.Limits
import ConfLang.Proofs.Nesting.Room
import ConfLang.Proofs.Nesting.Exact
import ConfLang.Proofs.Nesting.Calls
import ConfLang.Proofs.Nesting.Balanced
import ConfLang.Proofs.Progress.Carried
import ConfLang.Proofs.Progress.Order
import ConfLang.Proofs.Progress.Turns
import ConfLang.Proofs.Progress.Ends
import ConfLang.Proofs.Lookahead.Steps
import ConfLang.Proofs.Lookahead.RawText
import ConfLang.Proofs.Lookahead.Problems
import ConfLang.Proofs.Recovery.Resumption
import ConfLang.Proofs.Recovery.Language
import ConfLang.Proofs.Recovery.Balance
import ConfLang.Proofs.Recovery.Skipping
import ConfLang.Proofs.Recovery.Body
import ConfLang.Proofs.Recovery.Statement
import ConfLang.Proofs.Recovery.Program
import ConfLang.Proofs.Relocation.Trees
import ConfLang.Proofs.Relocation.Cursor
import ConfLang.Proofs.Relocation.Reading
import ConfLang.Proofs.Relocation.Lexeme
import ConfLang.Proofs.Relocation.Lines
import ConfLang.Proofs.Relocation.Joined
import ConfLang.Proofs.Relocation.Program
import ConfLang.Proofs.Writing.Number
import ConfLang.Proofs.Writing.Spelling
import ConfLang.Proofs.Writing.Scan
import ConfLang.Proofs.Writing.Tree
import ConfLang.Proofs.Writing.Expression
import ConfLang.Proofs.Writing.Statement
import ConfLang.Proofs.Writing.Conditional
import ConfLang.Proofs.Writing.Token
import ConfLang.Proofs.Writing.Reading
import ConfLang.Proofs.Writing.RoundTrip
import ConfLang.Proofs.Writing.Rows
import ConfLang.Proofs.Placement.Text
import ConfLang.Proofs.Scanning.Pieces
import ConfLang.Proofs.Scanning.Rows
import ConfLang.Proofs.Scanning.Trimming
import ConfLang.Proofs.Scanning.Directives
import ConfLang.Proofs.Scanning.Modes
import ConfLang.Proofs.Scanning.Lines
import ConfLang.Proofs.Spans.Tree
import ConfLang.Proofs.Spans.Lays
import ConfLang.Proofs.Spans.Expression
import ConfLang.Proofs.Spans.Statement
import ConfLang.Proofs.Excerpt.Lexeme
import ConfLang.Proofs.Excerpt.Cursor
import ConfLang.Proofs.Excerpt.Scan
import ConfLang.Proofs.Excerpt.Trees
import ConfLang.Proofs.Excerpt.Extent
import ConfLang.Proofs.Excerpt.Program
import ConfLang.Proofs.LineEndings.Cursor
import ConfLang.Proofs.LineEndings.Program
import ConfLang.Proofs.Scanning.Lexemes
import ConfLang.Proofs.Writing.Alone
import ConfLang.Proofs.Writing.Literals
import ConfLang.Proofs.Writing.Whole
import ConfLang.Proofs.Placement.Recount
import ConfLang.Proofs.DirectiveLine.Scan
import ConfLang.Proofs.DirectiveLine.Run
import ConfLang.Proofs.DirectiveLine.Condition
import ConfLang.Proofs.Recovery.Clauses
import ConfLang.Proofs.Recovery.ClauseOrder
import ConfLang.Proofs.Declarations.Index
import ConfLang.Proofs.Declarations.Warnings
import ConfLang.Proofs.Alteration.Follows
import ConfLang.Proofs.Alteration.Standing
import ConfLang.Proofs.Alteration.Token
import ConfLang.Proofs.Alteration.Expression
import ConfLang.Proofs.Alteration.Trees
import ConfLang.Proofs.Alteration.Body
import ConfLang.Proofs.Alteration.Line
import ConfLang.Proofs.Alteration.Conditional
import ConfLang.Proofs.Alteration.Statement
import ConfLang.Proofs.Alteration.Program
import ConfLang.Proofs.Alteration.Lexeme
import ConfLang.Proofs.Alteration.Cursor
import ConfLang.Proofs.Alteration.Text
import ConfLang.Proofs.Alteration.ConditionLine
import ConfLang.Proofs.Alteration.BadCondition
import ConfLang.Proofs.Alteration.Gap
import ConfLang.Proofs.Alteration.Lists
import ConfLang.Proofs.Alteration.Diagnostics
import ConfLang.Proofs.Alteration.TrailingComma
import ConfLang.Proofs.Alteration.MoreCommas
import ConfLang.Proofs.Recovery.Failure
import ConfLang.Proofs.Recovery.LeftOpen
import ConfLang.Proofs.Recovery.Counting
import ConfLang.Proofs.Recovery.Closers
