import JutsuSyntax.Expression.Level
import JutsuSyntax.Tree.Basic

/-! Which tokens make which trees, said without reading them in order. -/
namespace JutsuSyntax.Grammar
open Token (Symbol)

mutual
inductive Operand : Level → List Token → Tree → Prop where
  | tighter {l next operators tokens t} (form : l.form = .chain operators next)
      (only : Operand next tokens t) : Operand l tokens t
  | chain {l next operators before sign after s left right} (form : l.form = .chain operators next)
      (member : s ∈ operators) (kind : sign.kind = .symbol s)
      (first : Operand l before left) (last : Operand next after right) :
      Operand l (before ++ sign :: after) (Tree.binary s.spelling left right)
  | unsigned {l next operator tokens t} (form : l.form = .sign operator next)
      (only : Operand next tokens t) : Operand l tokens t
  | signed {l next operator sign tokens t} (form : l.form = .sign operator next)
      (kind : sign.kind = .symbol operator) (operand : Operand l tokens t) :
      Operand l (sign :: tokens) (Tree.unary operator.spelling t)
  | base {tokens t} (only : Operand .primary tokens t) : Operand .power tokens t
  | power {before sign after base exponent} (kind : sign.kind = .symbol .starStar)
      (first : Operand .primary before base) (last : Operand .factor after exponent) :
      Operand .power (before ++ sign :: after) (Tree.binary Symbol.starStar.spelling base exponent)
  | integer {token : Token} (kind : token.kind = .integer) :
      Operand .primary [token] (Tree.integer token.payload)
  | string {token : Token} (kind : token.kind = .string) :
      Operand .primary [token] (Tree.string token.payload)
  | name {token : Token} (kind : token.kind = .name) :
      Operand .primary [token] (Tree.identifier token.payload)
  | truth {token : Token} (kind : token.kind = .symbol .trueWord) :
      Operand .primary [token] (Tree.boolean true)
  | falsity {token : Token} (kind : token.kind = .symbol .falseWord) :
      Operand .primary [token] (Tree.boolean false)
  | paren {opening closing tokens t} (opens : opening.kind = .symbol .openParen)
      (inner : Operand .disjunction tokens t) (closes : closing.kind = .symbol .closeParen) :
      Operand .primary (opening :: tokens ++ [closing]) (Tree.expression t)
  | call {callee opening closing tokens ts} (named : callee.kind = .name)
      (opens : opening.kind = .symbol .openParen) (inner : Arguments tokens ts)
      (closes : closing.kind = .symbol .closeParen) :
      Operand .primary (callee :: opening :: tokens ++ [closing]) (Tree.call callee.payload ts)
inductive Arguments : List Token → List Tree → Prop where
  | none : Arguments [] []
  | one {tokens t} (only : Operand .disjunction tokens t) : Arguments tokens [Tree.expression t]
  | more {tokens comma others t u ts} (first : Operand .disjunction tokens t)
      (kind : comma.kind = .symbol .comma) (rest : Arguments others (u :: ts)) :
      Arguments (tokens ++ comma :: others) (Tree.expression t :: u :: ts)
end

inductive Parameters : List Token → List String → Prop where
  | none : Parameters [] []
  | one {token : Token} (kind : token.kind = .name) : Parameters [token] [token.payload]
  | more {token comma : Token} {others name names} (kind : token.kind = .name)
      (separator : comma.kind = .symbol .comma) (rest : Parameters others (name :: names)) :
      Parameters (token :: comma :: others) (token.payload :: name :: names)

/-- What may stand right behind a statement in a body: a sign would go on with any statement
that does not end in a brace, and a parenthesis makes a call of a name before it. -/
def Separate (statement next : List Token) : Prop :=
  ∀ last ∈ statement.getLast?, ∀ first ∈ next.head?,
    ¬ (first.kind = .symbol .minus ∧ last.kind ≠ .symbol .closeBrace) ∧
    ¬ (first.kind = .symbol .openParen ∧ last.kind = .name)

mutual
inductive Statement : List Token → Tree → Prop where
  | expression {tokens t} (only : Operand .disjunction tokens t) :
      Statement tokens (Tree.expression t)
  | assignment {target sign tokens t} (named : target.kind = .name)
      (kind : sign.kind = .symbol .assign) (value : Operand .disjunction tokens t) :
      Statement (target :: sign :: tokens)
        (Tree.assignment (Tree.identifier target.payload) (Tree.expression t))
  | augmented {target sign tokens t s operator} (named : target.kind = .name)
      (kind : sign.kind = .symbol s) (applies : s.augments = some operator)
      (value : Operand .disjunction tokens t) :
      Statement (target :: sign :: tokens)
        (Tree.assignment (Tree.identifier target.payload)
          (Tree.binary operator.spelling (Tree.identifier target.payload) t))
  | returned {keyword tokens t} (kind : keyword.kind = .symbol .releaseWord)
      (value : Operand .disjunction tokens t) :
      Statement (keyword :: tokens) (Tree.returned (Tree.expression t))
  | print {keyword tokens t} (kind : keyword.kind = .symbol .printWord)
      (value : Operand .disjunction tokens t) :
      Statement (keyword :: tokens) (Tree.call "print" [Tree.expression t])
  | conditional {keyword tokens t inner statements} (kind : keyword.kind = .symbol .ifWord)
      (condition : Operand .disjunction tokens t) (body : Body inner statements) :
      Statement (keyword :: tokens ++ inner) (Tree.conditional (Tree.expression t) statements)
  | definition {keyword name opening tokens closing inner names statements}
      (kind : keyword.kind = .symbol .jutsuWord) (named : name.kind = .name)
      (opens : opening.kind = .symbol .openParen) (parameters : Parameters tokens names)
      (closes : closing.kind = .symbol .closeParen) (body : Body inner statements) :
      Statement (keyword :: name :: opening :: tokens ++ closing :: inner)
        (Tree.definition name.payload names statements)
inductive Body : List Token → List Tree → Prop where
  | braces {opening closing tokens statements} (opens : opening.kind = .symbol .openBrace)
      (inner : Statements tokens statements) (closes : closing.kind = .symbol .closeBrace) :
      Body (opening :: tokens ++ [closing]) statements
inductive Statements : List Token → List Tree → Prop where
  | none : Statements [] []
  | blank {newline tokens statements} (kind : newline.kind = .newline)
      (rest : Statements tokens statements) : Statements (newline :: tokens) statements
  | more {tokens others t ts} (first : Statement tokens t) (apart : Separate tokens others)
      (rest : Statements others ts) : Statements (tokens ++ others) (t :: ts)
end

inductive Lines : List Token → List Tree → Prop where
  | none : Lines [] []
  | last {tokens t} (only : Statement tokens t) : Lines tokens [t]
  | blank {newline tokens ts} (kind : newline.kind = .newline) (rest : Lines tokens ts) :
      Lines (newline :: tokens) ts
  | line {tokens newline others t ts} (first : Statement tokens t)
      (kind : newline.kind = .newline) (rest : Lines others ts) :
      Lines (tokens ++ newline :: others) (t :: ts)

def Program (tokens : List Token) (t : Tree) : Prop :=
  ∃ statements, t = Tree.program statements ∧ Lines tokens statements

end JutsuSyntax.Grammar
