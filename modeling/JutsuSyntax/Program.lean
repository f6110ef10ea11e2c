import JutsuSyntax.Statement.Reading
import JutsuSyntax.Token.Scanner

/-! Whole programs: statements, each but the last followed by a newline. -/
namespace JutsuSyntax

namespace Cursor

def Consuming.statements (c : Cursor) : Consuming 0 c (List Tree) :=
  if c.kind = .finish then stay (.ok []) c
  else (of (statementConsumes c)).andThen (fun statement d _ =>
    if d.kind = .finish then stay (.ok statement.toList) d
    else ((expect .newline nofun d).andThen (fun _ e _ =>
      (Consuming.statements e).map (statement.toList ++ ·))).loose)
termination_by c.left

def statements (c : Cursor) : Parsed (List Tree) := (Consuming.statements c).val

theorem statementsStep (c : Cursor) : c.statements =
    if c.kind = .finish then ⟨.ok [],c⟩
    else c.statement.andThen (fun statement d =>
      if d.kind = .finish then ⟨.ok statement.toList,d⟩
      else (d.expect .newline).andThen (fun _ e => e.statements.map (statement.toList ++ ·))) := by
  unfold statements
  rw [Consuming.statements.eq_def]
  split
  · rfl
  · refine Consuming.andThenVal (fun statement d _ => ?_)
    split
    · rfl
    · exact Consuming.andThenVal (fun _ _ _ => rfl)

def program (c : Cursor) : Parsed Tree := c.statements.map Tree.program

end Cursor

def parse (tokens : List Token) : Except ParseError Tree := (Cursor.ofTokens tokens).program.result

inductive SyntaxError where
  | lexical (e : LexError)
  | grammatical (e : ParseError)
  deriving DecidableEq, Repr

def SyntaxError.location : SyntaxError → Location
  | lexical e => e.location
  | grammatical e => e.location

def SyntaxError.message : SyntaxError → String
  | lexical e => e.message
  | grammatical e => e.message

def parseText (text : String) : Except SyntaxError Tree :=
  match tokenize text with
  | .error e => .error (.lexical e)
  | .ok tokens => (parse tokens).mapError .grammatical

end JutsuSyntax
