import JutsuSyntax.Reply
import JutsuSyntax.Token.Basic
import JutsuSyntax.Tree.Basic

/-! Reading a token list from the front, and the errors of the productions that do so. -/
namespace JutsuSyntax

inductive Context where
  | statement
  | expression
  deriving DecidableEq, Repr

def Context.display : Context → String
  | statement => "statement"
  | expression => "expression"

inductive ParseError where
  | unexpected (expected : Token.Kind) (found : Token)
  | noAlternative (context : Context) (found : Token)
  | badParameters (function : String) (names commas : Nat) (location : Location)
  deriving DecidableEq, Repr

namespace ParseError

def location : ParseError → Location
  | unexpected _ found | noAlternative _ found => found.location
  | badParameters _ _ _ place => place

def complaint : ParseError → String
  | unexpected expected found => s!"expected {expected.display}, found {found.description}"
  | noAlternative context found => s!"no valid {context.display} here, found {found.description}"
  | badParameters function names commas _ =>
    s!"invalid argument list for '{function}' ({names} parameter(s), {commas} comma(s))"

def message (e : ParseError) : String := s!"Parse error at {e.location.display}: {e.complaint}"

end ParseError

structure Cursor where
  ahead : List Token
  bodies : Nat
  deriving DecidableEq, Repr

abbrev Parsed (α : Type) := Reply ParseError Cursor α

abbrev Production := Cursor → Parsed Tree

namespace Cursor

def complete (tokens : List Token) : List Token :=
  match tokens.getLast? with
  | none => [Token.finish .start]
  | some last => if last.kind = .finish then tokens else tokens ++ [Token.finish last.location]

def ofTokens (tokens : List Token) : Cursor := ⟨complete tokens,0⟩

def current (c : Cursor) : Token := c.ahead.headD (Token.finish .start)

def kind (c : Cursor) : Token.Kind := c.current.kind

def payload (c : Cursor) : String := c.current.payload

def left (c : Cursor) : Nat := c.ahead.length

def advance (c : Cursor) : Cursor :=
  if c.kind = .finish then c else {c with ahead := c.ahead.tail}

theorem advanceShortens {c : Cursor} (more : c.kind ≠ .finish) : c.advance.left + 1 = c.left := by
  obtain ⟨ahead,bodies⟩ := c
  cases ahead with
  | nil => exact absurd rfl more
  | cons token tokens => simp [advance,more,left]

theorem advanceNever (c : Cursor) : c.advance.left ≤ c.left := by
  by_cases ended : c.kind = .finish
  · simp [advance,ended]
  · have := advanceShortens ended
    omega

def expect (kind : Token.Kind) (c : Cursor) : Parsed Token :=
  if c.kind = kind then ⟨.ok c.current,c.advance⟩
  else ⟨.error (.unexpected kind c.current),c⟩

def further (a b : Cursor) : Cursor := if b.left < a.left then b else a

end Cursor
end JutsuSyntax
