import ToyLang.Command.Arguments
import ToyLang.Command.Folder
import ToyLang.Command.Options
import ToyLang.Command.Run
import ToyLang.DataType
import ToyLang.Diagnostic
import ToyLang.Json.Basic
import ToyLang.Json.Print
import ToyLang.Lexicon.Keyword
import ToyLang.Lexicon.Scalar
import ToyLang.Lexicon.Symbol
import ToyLang.Lexicon.Table
import ToyLang.Main
import ToyLang.Parser.Builder
import ToyLang.Parser.Declaration
import ToyLang.Parser.Expression
import ToyLang.Parser.File
import ToyLang.Parser.Problem
import ToyLang.Parser.Statement
import ToyLang.Parser.Work
import ToyLang.Pos
import ToyLang.Printer.Expr
import ToyLang.Printer.File
import ToyLang.Printer.Page
import ToyLang.Printer.Stmt
import ToyLang.Proofs.Accept
import ToyLang.Proofs.Accept.Declaration
import ToyLang.Proofs.Accept.Expression
import ToyLang.Proofs.Accept.Statement
import ToyLang.Proofs.Accepted.Builder
import ToyLang.Proofs.Accepted.Declaration
import ToyLang.Proofs.Accepted.Expression
import ToyLang.Proofs.Accepted.File
import ToyLang.Proofs.Accepted.Genuine
import ToyLang.Proofs.Accepted.Statement
import ToyLang.Proofs.Accepted.Token
import ToyLang.Proofs.Balance.Account
import ToyLang.Proofs.Balance.Builder
import ToyLang.Proofs.Balance.Declaration
import ToyLang.Proofs.Balance.Expression
import ToyLang.Proofs.Balance.File
import ToyLang.Proofs.Balance.Statement
import ToyLang.Proofs.Balance.Weight
import ToyLang.Proofs.Command.Content
import ToyLang.Proofs.Command.Folder
import ToyLang.Proofs.Command.Run
import ToyLang.Proofs.Dump.Json
import ToyLang.Proofs.Dump.Tree
import ToyLang.Proofs.Ensures
import ToyLang.Proofs.Extent.Expression
import ToyLang.Proofs.Extent.Row
import ToyLang.Proofs.Extent.Run
import ToyLang.Proofs.Grammar.Derivation
import ToyLang.Proofs.Grammar.Expression
import ToyLang.Proofs.Grammar.File
import ToyLang.Proofs.Grammar.Statement
import ToyLang.Proofs.Hole.Builder
import ToyLang.Proofs.Hole.Declaration
import ToyLang.Proofs.Hole.Expression
import ToyLang.Proofs.Hole.File
import ToyLang.Proofs.Hole.Statement
import ToyLang.Proofs.Idle
import ToyLang.Proofs.Import
import ToyLang.Proofs.Lexable.Expression
import ToyLang.Proofs.Lexable.File
import ToyLang.Proofs.Lexable.Statement
import ToyLang.Proofs.Lexable.Text
import ToyLang.Proofs.Lexing.Lexeme
import ToyLang.Proofs.Lexing.Line
import ToyLang.Proofs.Lexing.Text
import ToyLang.Proofs.Lexing.Tracking
import ToyLang.Proofs.Locality.Builder
import ToyLang.Proofs.Locality.Expression
import ToyLang.Proofs.Locality.File
import ToyLang.Proofs.Locality.Statement
import ToyLang.Proofs.Nodes
import ToyLang.Proofs.Origin.Builder
import ToyLang.Proofs.Origin.Expression
import ToyLang.Proofs.Origin.File
import ToyLang.Proofs.Origin.Location
import ToyLang.Proofs.Origin.Tree
import ToyLang.Proofs.Phrase.Accept
import ToyLang.Proofs.Phrase.Basic
import ToyLang.Proofs.Phrase.Role
import ToyLang.Proofs.Phrase.Segment
import ToyLang.Proofs.Phrase.Tally
import ToyLang.Proofs.Placement.Builder
import ToyLang.Proofs.Placement.Expression
import ToyLang.Proofs.Placement.File
import ToyLang.Proofs.Placement.Run
import ToyLang.Proofs.Policy
import ToyLang.Proofs.Printing.Ending
import ToyLang.Proofs.Printing.Expression
import ToyLang.Proofs.Printing.File
import ToyLang.Proofs.Printing.Frame
import ToyLang.Proofs.Printing.Page
import ToyLang.Proofs.Printing.Statement
import ToyLang.Proofs.Printing.Unplaced
import ToyLang.Proofs.Progress.Declaration
import ToyLang.Proofs.Progress.Ends
import ToyLang.Proofs.Progress.Expression
import ToyLang.Proofs.Progress.File
import ToyLang.Proofs.Progress.Round
import ToyLang.Proofs.Progress.Statement
import ToyLang.Proofs.Progress.Stop
import ToyLang.Proofs.PutBack.Builders
import ToyLang.Proofs.PutBack.Calls
import ToyLang.Proofs.Reduction
import ToyLang.Proofs.Report.Lines
import ToyLang.Proofs.Report.Render
import ToyLang.Proofs.Roundtrip.Declaration
import ToyLang.Proofs.Roundtrip.Definite
import ToyLang.Proofs.Roundtrip.Expression
import ToyLang.Proofs.Roundtrip.File
import ToyLang.Proofs.Roundtrip.Operand
import ToyLang.Proofs.Roundtrip.Regular
import ToyLang.Proofs.Roundtrip.Reparse
import ToyLang.Proofs.Roundtrip.Statement
import ToyLang.Proofs.Roundtrip.Tokens
import ToyLang.Proofs.Roundtrip.Unplaced
import ToyLang.Proofs.Sameness.Agree
import ToyLang.Proofs.Sameness.Moves
import ToyLang.Proofs.Shape.Printing
import ToyLang.Proofs.Shape.Tree
import ToyLang.Proofs.Spelling.Layout
import ToyLang.Proofs.Spelling.Text
import ToyLang.Proofs.Text.Utf8
import ToyLang.Proofs.View
import ToyLang.Proofs.View.Endless
import ToyLang.Proofs.View.Run
import ToyLang.Proofs.Widening.Builder
import ToyLang.Proofs.Widening.File
import ToyLang.Text.Blank
import ToyLang.Text.Digit
import ToyLang.Text.Hex
import ToyLang.Text.Newline
import ToyLang.Text.Quoted
import ToyLang.Text.Utf8
import ToyLang.Token.Basic
import ToyLang.Token.Kind
import ToyLang.Token.Lexeme
import ToyLang.Token.Lexer
import ToyLang.Token.Stream
import ToyLang.Token.Tape
import ToyLang.Tree.Display
import ToyLang.Tree.Dump
import ToyLang.Tree.Expr
import ToyLang.Tree.File
import ToyLang.Tree.Identity
import ToyLang.Tree.Stmt
import ToyLang.Tree.Value
