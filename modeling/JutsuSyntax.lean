import JutsuSyntax.Command.Execution
import JutsuSyntax.Command.Prompt
import JutsuSyntax.Command.Run
import JutsuSyntax.Cursor.Basic
import JutsuSyntax.Cursor.Progress
import JutsuSyntax.Expression.Level
import JutsuSyntax.Expression.Reading
import JutsuSyntax.Grammar
import JutsuSyntax.Main
import JutsuSyntax.Program
import JutsuSyntax.Proofs.Command.Session
import JutsuSyntax.Proofs.Cursor.Blame
import JutsuSyntax.Proofs.Cursor.Law
import JutsuSyntax.Proofs.Cursor.Outcome
import JutsuSyntax.Proofs.Expression.Acceptance
import JutsuSyntax.Proofs.Expression.Completeness
import JutsuSyntax.Proofs.Expression.Edges
import JutsuSyntax.Proofs.Expression.Groups
import JutsuSyntax.Proofs.Expression.Law
import JutsuSyntax.Proofs.Expression.Outcome
import JutsuSyntax.Proofs.Program.Acceptance
import JutsuSyntax.Proofs.Program.Balance
import JutsuSyntax.Proofs.Program.Bodies
import JutsuSyntax.Proofs.Program.Brackets
import JutsuSyntax.Proofs.Program.Completeness
import JutsuSyntax.Proofs.Program.Ending
import JutsuSyntax.Proofs.Program.ErrorPlace
import JutsuSyntax.Proofs.Program.Joining
import JutsuSyntax.Proofs.Program.Layout
import JutsuSyntax.Proofs.Program.LineEndings
import JutsuSyntax.Proofs.Program.Outcome
import JutsuSyntax.Proofs.Program.Parentheses
import JutsuSyntax.Proofs.Program.Rendering
import JutsuSyntax.Proofs.Program.Repetition
import JutsuSyntax.Proofs.Program.Rounds
import JutsuSyntax.Proofs.Program.Session
import JutsuSyntax.Proofs.Program.Shape
import JutsuSyntax.Proofs.Reader.Basic
import JutsuSyntax.Proofs.Reader.Expression
import JutsuSyntax.Proofs.Reader.Progress
import JutsuSyntax.Proofs.Reader.Session
import JutsuSyntax.Proofs.Reader.Statement
import JutsuSyntax.Proofs.Statement.Abbreviation
import JutsuSyntax.Proofs.Statement.Acceptance
import JutsuSyntax.Proofs.Statement.Commuting
import JutsuSyntax.Proofs.Statement.Completeness
import JutsuSyntax.Proofs.Statement.Definition
import JutsuSyntax.Proofs.Statement.Edges
import JutsuSyntax.Proofs.Statement.Exclusion
import JutsuSyntax.Proofs.Statement.HeaderOutcome
import JutsuSyntax.Proofs.Statement.Law
import JutsuSyntax.Proofs.Statement.Onward
import JutsuSyntax.Proofs.Statement.Outcome
import JutsuSyntax.Proofs.Statement.Parameters
import JutsuSyntax.Proofs.Statement.Thinning
import JutsuSyntax.Proofs.Statement.UnledOutcome
import JutsuSyntax.Proofs.Token.Depth
import JutsuSyntax.Proofs.Token.Failing
import JutsuSyntax.Proofs.Token.Joining
import JutsuSyntax.Proofs.Token.LineEndings
import JutsuSyntax.Proofs.Token.Matching
import JutsuSyntax.Proofs.Token.Newlines
import JutsuSyntax.Proofs.Token.Pieces
import JutsuSyntax.Proofs.Token.Session
import JutsuSyntax.Proofs.Token.Spelling
import JutsuSyntax.Proofs.Token.Tiling
import JutsuSyntax.Proofs.Token.Writing
import JutsuSyntax.Proofs.Tree.Outline
import JutsuSyntax.Proofs.Tree.Parentheses
import JutsuSyntax.Proofs.Tree.Preorder
import JutsuSyntax.Proofs.Tree.Shape
import JutsuSyntax.Proofs.Tree.Words
import JutsuSyntax.Reply
import JutsuSyntax.Statement.Parameters
import JutsuSyntax.Statement.Reading
import JutsuSyntax.Token.Basic
import JutsuSyntax.Token.Scanner
import JutsuSyntax.Token.Symbol
import JutsuSyntax.Tree.Basic
import JutsuSyntax.Tree.Preorder
import JutsuSyntax.Tree.Words
