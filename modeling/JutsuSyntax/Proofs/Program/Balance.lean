import JutsuSyntax.Grammar
import JutsuSyntax.Proofs.Token.Tiling

/-! Brackets of programs pair up, each closed by its own kind. Brackets of all kinds count alike to
the scanner, and behind a whole program none is open. -/
namespace JutsuSyntax
open Token (Symbol)

def Token.Symbol.closer : Symbol → Option Symbol
  | .openParen => some .closeParen
  | .openBracket => some .closeBracket
  | .openBrace => some .closeBrace
  | _ => none

theorem Token.Symbol.closerCloses {s close : Symbol} (pairs : s.closer = some close) :
    s.opens = true ∧ close.opens = false ∧ close.closes = true := by
  cases s <;> cases pairs <;> decide

namespace Grammar

def Bracketless (token : Token) : Prop :=
  ∀ s, token.kind = .symbol s → s.opens = false ∧ s.closes = false

inductive Nested : List Token → Prop where
  | none : Nested []
  | plain {token tokens} (other : Bracketless token) (rest : Nested tokens) : Nested (token :: tokens)
  | pair {opening inner closing rest s close} (opens : opening.kind = .symbol s)
      (pairs : s.closer = some close) (inside : Nested inner) (closes : closing.kind = .symbol close)
      (behind : Nested rest) : Nested (opening :: inner ++ closing :: rest)

variable {tokens others : List Token} {token opening closing : Token} {s close : Symbol} {depth : Nat}

theorem bracketlessSymbol (kind : token.kind = .symbol s)
    (other : s.opens = false ∧ s.closes = false) : Bracketless token := by
  intro k same
  cases kind.symm.trans same
  exact other

theorem bracketlessOther (other : ∀ s, token.kind ≠ .symbol s) : Bracketless token :=
  fun s same => absurd same (other s)

theorem bracketlessName (kind : token.kind = .name) : Bracketless token :=
  bracketlessOther (by simp [kind])

theorem bracketlessNewline (kind : token.kind = .newline) : Bracketless token :=
  bracketlessOther (by simp [kind])

theorem Bracketless.one (only : Bracketless token) : Nested [token] := .plain only .none

theorem Nested.append (first : Nested tokens) (last : Nested others) : Nested (tokens ++ others) := by
  induction first with
  | none => exact last
  | plain other rest ih => exact .plain other ih
  | pair opens pairs inside closes behind _ ih =>
    simpa using Nested.pair opens pairs inside closes ih

theorem Nested.closed (inner : Nested tokens) (opens : opening.kind = .symbol s)
    (pairs : s.closer = some close) (closes : closing.kind = .symbol close) :
    Nested (opening :: tokens ++ [closing]) := .pair opens pairs inner closes .none

def Balanced (tokens : List Token) : Prop := ∀ depth, tokens.foldl Token.depthPast depth = depth

theorem bracketlessDepth (h : Bracketless token) : token.depthPast depth = depth := by
  unfold Token.depthPast
  split
  · rename_i s kind
    simp [Symbol.depthAfter,h s kind]
  · rfl

theorem openingDepth (opens : opening.kind = .symbol s) (pairs : s.closer = some close) :
    opening.depthPast depth = depth + 1 := by
  simp [Token.depthPast,opens,Symbol.depthAfter,Symbol.closerCloses pairs]

theorem closingDepth (pairs : s.closer = some close) (closes : closing.kind = .symbol close) :
    closing.depthPast (depth + 1) = depth := by
  simp [Token.depthPast,closes,Symbol.depthAfter,Symbol.closerCloses pairs]

theorem Nested.balanced (h : Nested tokens) : Balanced tokens := by
  induction h with
  | none => exact fun _ => rfl
  | plain other rest ih =>
    intro depth
    rw [List.foldl_cons,bracketlessDepth other,ih]
  | pair opens pairs inside closes behind within after =>
    intro depth
    rw [List.cons_append,List.foldl_cons,openingDepth opens pairs,List.foldl_append,within,
      List.foldl_cons,closingDepth pairs closes,after]

theorem jointPlain {l next : Level} {operators : List Symbol} {s : Symbol}
    (form : l.form = .chain operators next) (member : s ∈ operators) :
    s.opens = false ∧ s.closes = false := by
  revert s
  cases l <;> cases form <;> decide

theorem signPlain {l next : Level} {operator : Symbol} (form : l.form = .sign operator next) :
    operator.opens = false ∧ operator.closes = false := by
  cases l <;> cases form <;> decide

theorem augmentsPlain {operator : Symbol} (applies : s.augments = some operator) :
    s.opens = false ∧ s.closes = false := by
  cases s <;> first | contradiction | decide

mutual
theorem operandNested {l tokens t} : Operand l tokens t → Nested tokens
  | .tighter _ only | .unsigned _ only | .base only => operandNested only
  | .chain form member kind first last =>
    (operandNested first).append
      (.plain (bracketlessSymbol kind (jointPlain form member)) (operandNested last))
  | .signed form kind operand =>
    .plain (bracketlessSymbol kind (signPlain form)) (operandNested operand)
  | .power kind first last =>
    (operandNested first).append (.plain (bracketlessSymbol kind (by decide)) (operandNested last))
  | .integer kind | .string kind | .name kind => (bracketlessOther (by simp [kind])).one
  | .truth kind | .falsity kind => (bracketlessSymbol kind (by decide)).one
  | .paren opens inner closes => (operandNested inner).closed opens rfl closes
  | .call named opens inner closes =>
    .plain (bracketlessName named) ((argumentsNested inner).closed opens rfl closes)
theorem argumentsNested {tokens ts} : Arguments tokens ts → Nested tokens
  | .none => .none
  | .one only => operandNested only
  | .more first kind rest =>
    (operandNested first).append (.plain (bracketlessSymbol kind (by decide)) (argumentsNested rest))
end

theorem parametersNested {names} (h : Parameters tokens names) : Nested tokens := by
  induction h with
  | none => exact .none
  | one kind => exact (bracketlessName kind).one
  | more kind separator rest ih =>
    exact .plain (bracketlessName kind) (.plain (bracketlessSymbol separator (by decide)) ih)

mutual
theorem statementNested {tokens t} : Statement tokens t → Nested tokens
  | .expression only => operandNested only
  | .assignment named kind value =>
    .plain (bracketlessName named) (.plain (bracketlessSymbol kind (by decide)) (operandNested value))
  | .augmented named kind applies value =>
    .plain (bracketlessName named)
      (.plain (bracketlessSymbol kind (augmentsPlain applies)) (operandNested value))
  | .returned kind value | .print kind value =>
    .plain (bracketlessSymbol kind (by decide)) (operandNested value)
  | .conditional kind condition body =>
    .plain (bracketlessSymbol kind (by decide)) ((operandNested condition).append (bodyNested body))
  | .definition kind named opens list closes body => by
    have parameters := (parametersNested list).closed opens rfl closes
    have head := Nested.plain (bracketlessSymbol kind (by decide)) (.plain (bracketlessName named) parameters)
    simpa using head.append (bodyNested body)
theorem bodyNested {tokens ts} : Body tokens ts → Nested tokens
  | .braces opens inner closes => (statementsNested inner).closed opens rfl closes
theorem statementsNested {tokens ts} : Statements tokens ts → Nested tokens
  | .none => .none
  | .blank kind rest => .plain (bracketlessNewline kind) (statementsNested rest)
  | .more first _ rest => (statementNested first).append (statementsNested rest)
end

theorem linesNested {ts} (h : Lines tokens ts) : Nested tokens := by
  induction h with
  | none => exact .none
  | last only => exact statementNested only
  | blank kind rest ih => exact .plain (bracketlessNewline kind) ih
  | line first kind rest ih => exact (statementNested first).append (.plain (bracketlessNewline kind) ih)

theorem linesBalanced {ts} (h : Lines tokens ts) : Balanced tokens := (linesNested h).balanced

end Grammar
end JutsuSyntax
