import JutsuSyntax.Proofs.Expression.Groups
import JutsuSyntax.Proofs.Statement.Acceptance
import JutsuSyntax.Proofs.Tree.Parentheses

/-! Augmented assignments and what they abbreviate: the operator written out, with its right operand
in parentheses. Both are statements of the same tokens, and their trees differ in marks only. -/
namespace JutsuSyntax
open Cursor
open Token (Symbol)

namespace Grammar
variable {tokens before after e : List Token} {target sign : Token} {s operator : Symbol}
  {t left right : Tree} {kind : Token.Kind}

theorem assigningStatement (named : target.kind = .name) (assigning : assigns sign.kind)
    (h : Statement (target :: sign :: tokens) t) : ∃ v, Operand .disjunction tokens v ∧
      (sign.kind = .symbol .assign ∧
        t = Tree.assignment (Tree.identifier target.payload) (Tree.expression v) ∨
      ∃ s operator, sign.kind = .symbol s ∧ s.augments = some operator ∧
        t = Tree.assignment (Tree.identifier target.payload)
          (Tree.binary operator.spelling (Tree.identifier target.payload) v)) := by
  generalize same : target :: sign :: tokens = whole at h
  cases h with
  | expression only =>
    have plain := expressivePlain (operandVocabulary only sign (by simp [← same]))
    rw [plain] at assigning
    contradiction
  | assignment _ kind value =>
    cases same
    exact ⟨_,value,.inl ⟨kind,rfl⟩⟩
  | augmented _ kind applies value =>
    cases same
    exact ⟨_,value,.inr ⟨_,_,kind,applies,rfl⟩⟩
  | returned kind | print kind | conditional kind | definition kind =>
    obtain ⟨rfl,_⟩ := List.cons.inj same
    cases named.symm.trans kind

theorem assignmentValue (named : target.kind = .name) (kind : sign.kind = .symbol .assign)
    (h : Statement (target :: sign :: tokens) t) : ∃ v, Operand .disjunction tokens v ∧
      t = Tree.assignment (Tree.identifier target.payload) (Tree.expression v) := by
  obtain ⟨v,value,⟨_,same⟩ | ⟨s,_,other,applies,_⟩⟩ := assigningStatement named (by rw [kind]; rfl) h
  · exact ⟨v,value,same⟩
  · cases kind.symm.trans other
    contradiction

theorem augmentedValue (named : target.kind = .name) (kind : sign.kind = .symbol s)
    (applies : s.augments = some operator) (h : Statement (target :: sign :: tokens) t) :
    ∃ v, Operand .disjunction tokens v ∧ t = Tree.assignment (Tree.identifier target.payload)
      (Tree.binary operator.spelling (Tree.identifier target.payload) v) := by
  have assigning : assigns sign.kind := by
    rw [kind]
    cases s <;> first | contradiction | rfl
  obtain ⟨v,value,⟨plain,_⟩ | ⟨s,_,same,applies',whole⟩⟩ := assigningStatement named assigning h
  · cases kind.symm.trans plain
    contradiction
  · cases kind.symm.trans same
    cases applies.symm.trans applies'
    exact ⟨v,value,whole⟩

theorem joinedOperand (joint : operator ∈ binaryOperators) (kind : sign.kind = .symbol operator)
    (first : Operand .primary before left) (last : Operand .primary after right) :
    Operand .disjunction (before ++ sign :: after) (Tree.binary operator.spelling left right) := by
  rcases Level.jointForm joint with rfl | ⟨l,operators,next,form,member⟩
  · have exponent : Operand .factor after right := operandLooser (by decide) last
    exact operandLooser (by decide) (.power kind first exponent)
  · have operand : Operand next after right := operandLooser (m := .primary) next.rankBound.2 last
    have chain : Operand l before left := operandLooser (m := .primary) l.rankBound.2 first
    exact operandLooser l.rankBound.1 (.chain form member kind chain operand)

theorem apartBehind (o : Operand .disjunction e t) : Grammar.Apart (target :: sign :: e) kind ↔
    kind ≠ .symbol .minus ∧ (kind = .symbol .openParen → Nameless e) := by
  rw [Grammar.apartCons (List.cons_ne_nil _ _),Grammar.apartCons (operandFilled o)]
  obtain ⟨front,last,rfl⟩ := (List.eq_nil_or_concat e).resolve_left (operandFilled o)
  obtain ⟨_,_,brace,_⟩ := expressiveOnly (operandVocabulary o last (by simp))
  simp [Grammar.Apart,Nameless,brace]

end Grammar

def augmentations : List (Symbol × Symbol) :=
  [(.plusAssign,.plus),(.minusAssign,.minus),(.starAssign,.star),(.slashAssign,.slash),
   (.slashSlashAssign,.slashSlash),(.starStarAssign,.starStar)]

theorem augmentsListed (s operator : Symbol) : (s,operator) ∈ augmentations ↔ s.augments = some operator := by
  cases s <;> simp [augmentations,Symbol.augments,eq_comm]

theorem augmentsJoint {entry : Symbol × Symbol} (listed : entry ∈ augmentations) :
    entry.2 ∈ binaryOperators := by
  revert entry
  decide

structure Abbreviation where
  augment : Symbol
  operator : Symbol
  target : Token
  sign : Token
  equals : Token
  again : Token
  joint : Token
  opening : Token
  closing : Token
  listed : (augment,operator) ∈ augmentations
  named : target.kind = .name
  renamed : again.kind = .name
  same : again.payload = target.payload
  augments : sign.kind = .symbol augment
  assigns : equals.kind = .symbol .assign
  joins : joint.kind = .symbol operator
  opens : opening.kind = .symbol .openParen
  closes : closing.kind = .symbol .closeParen

namespace Abbreviation
open Grammar

variable (a : Abbreviation) {e : List Token} {c : Cursor} {r t u : Tree}

def short (e : List Token) : List Token := a.target :: a.sign :: e

def operation (e : List Token) : List Token := a.again :: a.joint :: (a.opening :: e ++ [a.closing])

def long (e : List Token) : List Token := a.target :: a.equals :: a.operation e

def shortTree (r : Tree) : Tree :=
  Tree.assignment (Tree.identifier a.target.payload)
    (Tree.binary a.operator.spelling (Tree.identifier a.target.payload) r)

def longTree (r : Tree) : Tree :=
  Tree.assignment (Tree.identifier a.target.payload) (Tree.expression
    (Tree.binary a.operator.spelling (Tree.identifier a.target.payload) (Tree.expression r)))

theorem treesUnmarked (r : Tree) : (a.shortTree r).unmarked = (a.longTree r).unmarked := rfl

theorem operationOperand (o : Operand .disjunction e r) : Operand .disjunction (a.operation e)
    (Tree.binary a.operator.spelling (Tree.identifier a.target.payload) (Tree.expression r)) := by
  rw [← a.same]
  exact joinedOperand (augmentsJoint a.listed) a.joins (.name a.renamed) (.paren a.opens o a.closes)

theorem operationGroup (balanced : Balanced e) (o : Operand .disjunction (a.operation e) t) :
    ∃ r, Operand .disjunction e r := by
  have free : Nameless [a.again,a.joint] := by simp [Nameless,a.joins]
  exact groupInside o balanced a.opens free rfl

-- Of the token behind them both forms ask the same, but for the parenthesis that would make a call of
-- the name at the end of the short one.
theorem shortWhole : c.Whole (a.short e) t ↔ ∃ r, Operand .disjunction e r ∧ t = a.shortTree r ∧
    c.atBoundary ∧ c.kind ≠ .symbol .minus ∧ (c.kind = .symbol .openParen → Nameless e) := by
  have applies := (augmentsListed _ _).mp a.listed
  rw [short,namedWhole a.named]
  constructor
  · rintro ⟨makes,apart,boundary⟩
    obtain ⟨r,operand,same⟩ := augmentedValue a.named a.augments applies makes
    exact ⟨r,operand,same,boundary,(apartBehind operand).mp apart⟩
  · rintro ⟨r,operand,rfl,boundary,behind⟩
    exact ⟨.augmented a.named a.augments applies operand,(apartBehind operand).mpr behind,boundary⟩

theorem longWhole : c.Whole (a.long e) u ↔ ∃ v, Operand .disjunction (a.operation e) v ∧
    u = Tree.assignment (Tree.identifier a.target.payload) (Tree.expression v) ∧
    c.atBoundary ∧ c.kind ≠ .symbol .minus := by
  have last : (a.long e).getLast? = some a.closing :=
    List.getLast?_concat (l := a.target :: a.equals :: a.again :: a.joint :: a.opening :: e)
  have behind : Grammar.Apart (a.long e) c.kind ↔ c.kind ≠ .symbol .minus := by
    simp [Grammar.Apart,last,a.closes]
  rw [long,namedWhole a.named]
  constructor
  · rintro ⟨makes,apart,boundary⟩
    obtain ⟨v,operand,same⟩ := assignmentValue a.named a.assigns makes
    exact ⟨v,operand,same,boundary,behind.mp apart⟩
  · rintro ⟨v,operand,rfl,boundary,minus⟩
    exact ⟨.assignment a.named a.assigns operand,behind.mpr minus,boundary⟩

/-- An augmented assignment is a statement just where its long form is one and the parentheses of
that form go with each other; then its tree is that of the long form, but for marks, and the whole
right side is the right operand. -/
theorem meansLong (a : Abbreviation) (e : List Token) (c : Cursor) :
    ((∃ t, c.Whole (a.short e) t) ↔ (∃ u, c.Whole (a.long e) u) ∧ Balanced e ∧
      (c.kind = .symbol .openParen → ∀ last ∈ e.getLast?, last.kind ≠ .name)) ∧
    ∀ t u, c.Whole (a.short e) t → c.Whole (a.long e) u → t.unmarked = u.unmarked ∧
      ∃ r, Operand .disjunction e r ∧ t = a.shortTree r ∧ u = a.longTree r := by
  refine ⟨⟨?_,?_⟩,?_⟩
  · rintro ⟨t,whole⟩
    obtain ⟨r,operand,_,boundary,minus,free⟩ := a.shortWhole.mp whole
    have long := a.longWhole.mpr ⟨_,a.operationOperand operand,rfl,boundary,minus⟩
    exact ⟨⟨_,long⟩,(operandNested operand).balanced,free⟩
  · rintro ⟨⟨u,whole⟩,balanced,free⟩
    obtain ⟨v,operation,_,boundary,minus⟩ := a.longWhole.mp whole
    obtain ⟨r,operand⟩ := a.operationGroup balanced operation
    exact ⟨_,a.shortWhole.mpr ⟨r,operand,rfl,boundary,minus,free⟩⟩
  · intro t u short long
    obtain ⟨r,operand,rfl,_⟩ := a.shortWhole.mp short
    obtain ⟨v,operation,rfl,_⟩ := a.longWhole.mp long
    obtain rfl := operandUnique operation (a.operationOperand operand)
    exact ⟨a.treesUnmarked r,r,operand,rfl,rfl⟩

def raising : Abbreviation where
  augment := .starStarAssign
  operator := .starStar
  target := ⟨.name,some "x",⟨1,1⟩⟩
  sign := ⟨.symbol .starStarAssign,none,⟨1,3⟩⟩
  equals := ⟨.symbol .assign,none,⟨1,3⟩⟩
  again := ⟨.name,some "x",⟨1,5⟩⟩
  joint := ⟨.symbol .starStar,none,⟨1,7⟩⟩
  opening := ⟨.symbol .openParen,none,⟨1,10⟩⟩
  closing := ⟨.symbol .closeParen,none,⟨1,22⟩⟩
  listed := by decide
  named := rfl
  renamed := rfl
  same := rfl
  augments := rfl
  assigns := rfl
  joins := rfl
  opens := rfl
  closes := rfl

def loose : List Token :=
  [⟨.symbol .bang,none,⟨1,12⟩⟩,⟨.name,some "y",⟨1,14⟩⟩,⟨.symbol .orWord,none,⟨1,16⟩⟩,
   ⟨.integer,some "2",⟨1,19⟩⟩]

def looseTree : Tree :=
  .binary "or" (.unary "!" (.identifier "y")) (.integer "2")

def closingBrace : Cursor := ⟨[⟨.symbol .closeBrace,none,⟨1,24⟩⟩,Token.finish ⟨1,25⟩],1⟩

theorem looseMeansLong : closingBrace.Whole (raising.short loose) (raising.shortTree looseTree) ∧
    closingBrace.Whole (raising.long loose) (raising.longTree looseTree) ∧ Balanced loose ∧
    (raising.shortTree looseTree).unmarked = (raising.longTree looseTree).unmarked ∧
    Operand .disjunction loose looseTree := by
  have short : closingBrace.Whole (raising.short loose) (raising.shortTree looseTree) :=
    wholeOf (by decide +kernel) (by decide +kernel)
  have long : closingBrace.Whole (raising.long loose) (raising.longTree looseTree) :=
    wholeOf (by decide +kernel) (by decide +kernel)
  obtain ⟨stands,means⟩ := meansLong raising loose closingBrace
  obtain ⟨same,r,operand,tree,_⟩ := means _ _ short long
  obtain ⟨_,balanced,_⟩ := stands.mp ⟨_,short⟩
  cases tree
  exact ⟨short,long,balanced,same,operand⟩

def crossed : List Token :=
  [⟨.integer,some "1",⟨1,12⟩⟩,⟨.symbol .closeParen,none,⟨1,14⟩⟩,⟨.symbol .starStar,none,⟨1,16⟩⟩,
   ⟨.symbol .openParen,none,⟨1,19⟩⟩,⟨.integer,some "2",⟨1,21⟩⟩]

def crossedTree : Tree :=
  .assignment (.identifier "x") (.expression (.binary "**" (.identifier "x")
    (.binary "**" (.expression (.integer "1")) (.expression (.integer "2")))))

def inputEnd : Cursor := ⟨[Token.finish ⟨1,24⟩],0⟩

def groupAhead : Cursor :=
  ⟨[⟨.symbol .openParen,none,⟨1,24⟩⟩,⟨.name,some "z",⟨1,26⟩⟩,⟨.symbol .closeParen,none,⟨1,28⟩⟩,
    ⟨.symbol .closeBrace,none,⟨1,30⟩⟩,Token.finish ⟨1,31⟩],1⟩

def lastName : List Token := [⟨.name,some "y",⟨1,12⟩⟩]

theorem crossedOnlyLong :
    ((∃ u, inputEnd.Whole (raising.long crossed) u) ∧ ¬ ∃ t, inputEnd.Whole (raising.short crossed) t) ∧
    (∃ u, groupAhead.Whole (raising.long lastName) u) ∧
      ¬ ∃ t, groupAhead.Whole (raising.short lastName) t := by
  have refused : (inputEnd.back (raising.short crossed)).statement.after =
      inputEnd.back (raising.short crossed) := by decide +kernel
  have called : (groupAhead.back (raising.short lastName)).statement.after.ahead.length = 2 := by
    decide +kernel
  refine ⟨⟨⟨crossedTree,wholeOf (by decide +kernel) (by decide +kernel)⟩,?_⟩,
    ⟨raising.longTree (.identifier "y"),wholeOf (by decide +kernel) (by decide +kernel)⟩,?_⟩
  · rintro ⟨t,whole⟩
    rw [whole] at refused
    cases congrArg (fun c => c.ahead.length) refused
  · rintro ⟨t,whole⟩
    rw [whole] at called
    cases called

end Abbreviation
end JutsuSyntax
