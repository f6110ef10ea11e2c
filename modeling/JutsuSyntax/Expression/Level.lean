import JutsuSyntax.Token.Basic

/-! The levels of the expression grammar, loosest first, and the form of each.

    expression  ::= disjunction
    disjunction ::= conjunction ('or' conjunction)*
    conjunction ::= inversion ('and' inversion)*
    inversion   ::= '!' inversion | comparison
    comparison  ::= sum (('==' | '!=' | '<=' | '<' | '>=' | '>') sum)*
    sum         ::= term (('+' | '-') term)*
    term        ::= factor (('*' | '/' | '//' | '%') factor)*
    factor      ::= '-' factor | power
    power       ::= primary ('**' factor)?
    primary     ::= NAME '(' (expression (',' expression)*)? ')' | atom
    atom        ::= INT | STRING | NAME | 'True' | 'False' | '(' expression ')'
-/
namespace JutsuSyntax

inductive Level where
  | disjunction | conjunction | inversion | comparison | sum | term | factor | power | primary
  deriving DecidableEq, Repr

namespace Level

/-- A chain folds its operands to the left; a sign may be repeated in front of an operand; a
power takes a factor on its right. -/
inductive Form where
  | chain (operators : List Token.Symbol) (operand : Level)
  | sign (operator : Token.Symbol) (operand : Level)
  | power
  | primary
  deriving DecidableEq, Repr

def form : Level → Form
  | disjunction => .chain [.orWord] conjunction
  | conjunction => .chain [.andWord] inversion
  | inversion => .sign .bang comparison
  | comparison => .chain [.equal,.notEqual,.atMost,.less,.atLeast,.greater] sum
  | sum => .chain [.plus,.minus] term
  | term => .chain [.star,.slash,.slashSlash,.percent] factor
  | factor => .sign .minus power
  | power => .power
  | primary => .primary

def rank : Level → Nat
  | disjunction => 1 | conjunction => 2 | inversion => 3 | comparison => 4 | sum => 5
  | term => 6 | factor => 7 | power => 8 | primary => 9

theorem rankBound (l : Level) : 1 ≤ l.rank ∧ l.rank ≤ 9 := by cases l <;> decide

theorem rankChain {l operand : Level} {operators} (h : l.form = .chain operators operand) :
    l.rank < operand.rank := by
  cases l <;> simp [form] at h <;> simp [← h.2,rank]

theorem rankSign {l operand : Level} {operator} (h : l.form = .sign operator operand) :
    l.rank < operand.rank := by
  cases l <;> simp [form] at h <;> simp [← h.2,rank]

theorem formPower {l : Level} (h : l.form = .power) : l = power := by
  cases l <;> simp [form] at h
  rfl

theorem formPrimary {l : Level} (h : l.form = .primary) : l = primary := by
  cases l <;> simp [form] at h
  rfl

theorem rankPower {l : Level} (h : l.form = .power) : 10 - primary.rank < 10 - l.rank := by
  rw [formPower h]
  decide

end Level
end JutsuSyntax
