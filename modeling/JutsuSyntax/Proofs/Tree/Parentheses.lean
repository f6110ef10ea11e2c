import JutsuSyntax.Proofs.Expression.Acceptance
import JutsuSyntax.Proofs.Token.Writing
import JutsuSyntax.Proofs.Tree.Shape
import JutsuSyntax.Proofs.Tree.Words

/-! Operator trees written with no more parentheses than they need. An operand is marked just
where it binds less tightly than its place needs; then the grammar makes the marked tree of the
words, and without its marks it is the tree again. -/
namespace JutsuSyntax
open Grammar
open Token (Symbol)
open Word (symbol)

namespace Tree

mutual
def unmarked : Tree → Tree
  | ⟨.expression,_,[inner]⟩ => unmarked inner
  | ⟨kind,value,children⟩ => ⟨kind,value,unmarkedAll children⟩
def unmarkedAll : List Tree → List Tree
  | [] => []
  | t :: ts => unmarked t :: unmarkedAll ts
end

def placed (need rank : Nat) (t : Tree) : Tree := if rank < need then expression t else t

mutual
/-- Marks the operands that bind less tightly than they need to. An argument of a call is always
marked and is written without parentheses. -/
def enclosed : Tree → Tree
  | ⟨.unary,some operator,[operand]⟩ =>
    unary operator (placed (unaryRank operator) operand.rank (enclosed operand))
  | ⟨.binary,some operator,[left,right]⟩ =>
    binary operator (placed (leftNeed operator) left.rank (enclosed left))
      (placed (rightNeed operator) right.rank (enclosed right))
  | ⟨.call,callee,inner⟩ => ⟨.call,callee,enclosedArguments inner⟩
  | t => t
def enclosedArguments : List Tree → List Tree
  | ⟨.argument,_,[inner]⟩ :: others => argument (expression (enclosed inner)) :: enclosedArguments others
  | ts => ts
end

inductive Formula : Tree → Prop where
  | integer {digits} (writable : (Word.integer digits).Writable) : Formula (integer digits)
  | string {contents} (writable : (Word.string contents).Writable) : Formula (string contents)
  | identifier {letters} (writable : (Word.name letters).Writable) : Formula (identifier letters)
  | boolean (truth : Bool) : Formula (boolean truth)
  | call {callee inner} (writable : (Word.name callee).Writable) (each : ∀ t ∈ inner, Formula t) :
      Formula (call callee inner)
  | unary {s t} (sign : s ∈ [Symbol.bang,.minus]) (operand : Formula t) : Formula (unary s.spelling t)
  | binary {s left right} (joint : s ∈ binaryOperators) (first : Formula left) (last : Formula right) :
      Formula (binary s.spelling left right)

variable {s : Symbol} {t u left right : Tree} {ts : List Tree} {need rank : Nat} {callee : String}

theorem enclosedCall : (call callee ts).enclosed = call callee ((ts.map enclosed).map expression) := by
  have arguments : enclosedArguments (ts.map argument) = ((ts.map enclosed).map expression).map argument := by
    induction ts with
    | nil => rfl
    | cons t ts ih => exact congrArg (argument (expression t.enclosed) :: ·) ih
  exact congrArg (Tree.mk .call (some callee)) arguments

theorem unmarkedAllMap (ts : List Tree) : unmarkedAll ts = ts.map unmarked := by
  induction ts with
  | nil => rfl
  | cons t ts ih => exact congrArg (t.unmarked :: ·) ih

theorem unmarkedCall : (call callee ts).unmarked = call callee (ts.map unmarked) := by
  refine congrArg (Tree.mk .call (some callee)) ?_
  rw [unmarkedAllMap,List.map_map,List.map_map]
  rfl

theorem unmarkedPlaced (t : Tree) : (placed need rank t).unmarked = t.unmarked := by
  unfold placed
  split <;> rfl

theorem unmarkedEnclosed (h : Formula t) : t.enclosed.unmarked = t := by
  induction h with
  | integer | string | identifier | boolean => rfl
  | @call callee inner _ _ ih =>
    rw [enclosedCall,unmarkedCall,List.map_map,List.map_map]
    exact congrArg (call callee) ((List.map_congr_left ih).trans (List.map_id inner))
  | @unary s t _ _ ih =>
    refine congrArg (unary s.spelling) ?_
    rw [unmarkedPlaced,ih]
  | @binary s left right _ _ _ first last =>
    refine congrArg₂ (binary s.spelling) ?_ ?_
    · rw [unmarkedPlaced,first]
    · rw [unmarkedPlaced,last]

def Written (t : Tree) : Prop := ∀ w ∈ operandWords t, w.Writable

theorem writtenMarked (inner : Written t) : Written (expression t) := by
  refine List.forall_mem_cons.mpr ⟨.symbol .openParen,List.forall_mem_append.mpr ⟨inner,?_⟩⟩
  exact List.forall_mem_singleton.mpr (.symbol .closeParen)

theorem writtenPlaced (inner : Written t) : Written (placed need rank t) := by
  unfold placed
  split
  · exact writtenMarked inner
  · exact inner

theorem writtenOperator (s : Symbol) : ∀ w ∈ operatorWord s.spelling, w.Writable := by
  rw [operatorWordSpelling]
  exact List.forall_mem_singleton.mpr (.symbol s)

theorem writtenArguments (each : ∀ t ∈ ts, Written t) :
    ∀ w ∈ argumentWords ((ts.map expression).map argument), w.Writable := by
  induction ts with
  | nil => exact List.forall_mem_nil _
  | cons t ts ih =>
    obtain ⟨first,others⟩ := List.forall_mem_cons.mp each
    cases ts with
    | nil => exact first
    | cons u ts =>
      exact List.forall_mem_append.mpr ⟨first,List.forall_mem_cons.mpr ⟨.symbol .comma,ih others⟩⟩

theorem formulaWritten (h : Formula t) : Written t.enclosed := by
  induction h with
  | integer writable | string writable | identifier writable =>
    exact List.forall_mem_singleton.mpr writable
  | boolean truth => exact List.forall_mem_singleton.mpr (.symbol _)
  | @call callee inner writable _ ih =>
    rw [enclosedCall]
    have each : ∀ t ∈ inner.map enclosed, Written t := List.forall_mem_map.mpr ih
    refine List.forall_mem_cons.mpr ⟨writable,List.forall_mem_cons.mpr ⟨.symbol .openParen,?_⟩⟩
    refine List.forall_mem_append.mpr ⟨writtenArguments each,?_⟩
    exact List.forall_mem_singleton.mpr (.symbol .closeParen)
  | @unary s _ _ _ ih => exact List.forall_mem_append.mpr ⟨writtenOperator s,writtenPlaced ih⟩
  | @binary s _ _ _ _ _ first last =>
    refine List.forall_mem_append.mpr ⟨?_,writtenPlaced last⟩
    exact List.forall_mem_append.mpr ⟨writtenPlaced first,writtenOperator s⟩

end Tree

namespace Level
variable {l m next : Level} {operators : List Symbol} {s : Symbol}

theorem rankNext (form : (∃ operators, l.form = .chain operators next) ∨ ∃ s, l.form = .sign s next) :
    next.rank = l.rank + 1 := by
  rcases form with ⟨_,form⟩ | ⟨_,form⟩ <;> cases l <;> cases form <;> rfl

theorem rankInjective (same : l.rank = m.rank) : l = m := by
  cases l <;> cases m <;> first | rfl | contradiction

theorem chainRight (form : l.form = .chain operators next) (member : s ∈ operators) :
    Tree.rightNeed s.spelling = next.rank := by
  revert s
  cases l <;> cases form <;> decide

theorem jointForm (joint : s ∈ binaryOperators) :
    s = .starStar ∨ ∃ l operators next, form l = .chain operators next ∧ s ∈ operators := by
  rw [← binaryJoints,joints,List.mem_flatMap] at joint
  obtain ⟨l,_,member⟩ := joint
  cases form : l.form with
  | chain operators next => exact .inr ⟨l,operators,next,form,by rwa [form] at member⟩
  | power => exact .inl (by simpa [form,Form.joints] using member)
  | sign | primary => simp [form,Form.joints] at member

theorem signForm (sign : s ∈ [Symbol.bang,.minus]) : ∃ l next, form l = .sign s next := by
  rcases List.mem_cons.mp sign with rfl | last
  · exact ⟨.inversion,.comparison,rfl⟩
  · cases List.mem_singleton.mp last
    exact ⟨.factor,.power,rfl⟩

end Level

namespace Grammar
variable {l : Level} {token : Token} {tokens : List Token} {t u : Tree} {ts : List Tree} {s : Symbol}
  {kind : Token.Kind} {text : String}

theorem operandLooser {l m tokens t} (less : l.rank ≤ m.rank) (operand : Operand m tokens t) :
    Operand l tokens t := by
  rcases Nat.lt_or_eq_of_le less with below | same
  · cases form : l.form with
    | chain operators next =>
      have rank := Level.rankNext (.inl ⟨_,form⟩)
      exact .tighter form (operandLooser (by omega) operand)
    | sign operator next =>
      have rank := Level.rankNext (.inr ⟨_,form⟩)
      exact .unsigned form (operandLooser (by omega) operand)
    | power =>
      have power := Level.formPower form
      have rank : l.rank < Level.primary.rank := power ▸ Nat.lt_succ_self 8
      have less : Level.primary.rank ≤ m.rank := by
        rw [power] at below
        exact below
      rw [power]
      exact .base (operandLooser less operand)
    | primary =>
      cases Level.formPrimary form
      exact absurd below (Nat.not_lt.mpr m.rankBound.2)
  · cases Level.rankInjective same
    exact operand
termination_by m.rank - l.rank

def Derives (l : Level) (t : Tree) : Prop :=
  ∀ tokens, tokens.map Token.word = Tree.operandWords t → Operand l tokens t

theorem symbolWord (same : token.word = symbol s) : token.kind = .symbol s := congrArg Word.kind same

theorem textWord (same : token.word = ⟨kind,some text⟩) : token.kind = kind ∧ token.payload = text := by
  obtain ⟨rfl,lexeme⟩ := Word.mk.inj same
  refine ⟨rfl,?_⟩
  split at lexeme
  · exact Option.some.inj lexeme
  · contradiction

theorem singleWord {w : Word} (same : tokens.map Token.word = [w]) :
    ∃ token, tokens = [token] ∧ token.word = w := by
  obtain ⟨token,none,rfl,word,empty⟩ := List.map_eq_cons_iff.mp same
  cases List.map_eq_nil_iff.mp empty
  exact ⟨token,rfl,word⟩

theorem derivesLooser {m : Level} (less : l.rank ≤ m.rank) (h : Derives m t) : Derives l t :=
  fun tokens same => operandLooser less (h tokens same)

theorem derivesAnywhere (atom : Derives .primary t) (l : Level) : Derives l t :=
  derivesLooser (m := .primary) l.rankBound.2 atom

theorem derivesText (leaf : String → Tree) (words : Tree.operandWords (leaf text) = [⟨kind,some text⟩])
    (atom : ∀ {token : Token}, token.kind = kind → Operand .primary [token] (leaf token.payload)) :
    Derives .primary (leaf text) := by
  intro tokens same
  obtain ⟨token,rfl,word⟩ := singleWord (same.trans words)
  obtain ⟨kind,rfl⟩ := textWord word
  exact atom kind

theorem derivesBoolean (truth : Bool) : Derives .primary (Tree.boolean truth) := by
  intro tokens same
  obtain ⟨token,rfl,word⟩ := singleWord same
  cases truth with
  | false => exact .falsity (symbolWord word)
  | true => exact .truth (symbolWord word)

theorem derivesMarked (inner : Derives .disjunction t) : Derives .primary (Tree.expression t) := by
  intro tokens same
  obtain ⟨opening,rest,rfl,opens,same⟩ := List.map_eq_cons_iff.mp same
  obtain ⟨tokens,closed,rfl,within,ends⟩ := List.map_eq_append_iff.mp same
  obtain ⟨closing,rfl,closes⟩ := singleWord ends
  exact .paren (symbolWord opens) (inner tokens within) (symbolWord closes)

theorem derivesPlaced {need rank : Nat} (filled : 1 ≤ rank)
    (derives : ∀ l : Level, l.rank ≤ rank → Derives l t) (fits : l.rank ≤ need) :
    Derives l (Tree.placed need rank t) := by
  unfold Tree.placed
  split
  · exact derivesAnywhere (derivesMarked (derives .disjunction filled)) l
  · exact derives l (by omega)

theorem derivesUnary {next : Level} (form : l.form = .sign s next) (operand : Derives l t) :
    Derives l (Tree.unary s.spelling t) := by
  intro tokens same
  have words : tokens.map Token.word = Tree.operatorWord s.spelling ++ Tree.operandWords t := same
  rw [Tree.operatorWordSpelling] at words
  obtain ⟨sign,rest,rfl,kind,same⟩ := List.map_eq_cons_iff.mp words
  exact .signed form (symbolWord kind) (operand rest same)

theorem binaryWord {left right : Tree}
    (same : tokens.map Token.word = Tree.operandWords (Tree.binary s.spelling left right)) :
    ∃ before sign after, tokens = before ++ sign :: after ∧ sign.kind = .symbol s ∧
      before.map Token.word = Tree.operandWords left ∧ after.map Token.word = Tree.operandWords right := by
  have words : tokens.map Token.word =
      Tree.operandWords left ++ Tree.operatorWord s.spelling ++ Tree.operandWords right := same
  rw [Tree.operatorWordSpelling,List.append_assoc] at words
  obtain ⟨before,rest,rfl,first,same⟩ := List.map_eq_append_iff.mp words
  obtain ⟨sign,after,rfl,kind,last⟩ := List.map_eq_cons_iff.mp same
  exact ⟨before,sign,after,rfl,symbolWord kind,first,last⟩

theorem derivesChain {next : Level} {operators left right} (form : l.form = .chain operators next)
    (member : s ∈ operators) (first : Derives l left) (last : Derives next right) :
    Derives l (Tree.binary s.spelling left right) := by
  intro tokens same
  obtain ⟨before,sign,after,rfl,kind,leftWords,rightWords⟩ := binaryWord same
  exact .chain form member kind (first before leftWords) (last after rightWords)

theorem derivesPower {base exponent} (first : Derives .primary base) (last : Derives .factor exponent) :
    Derives .power (Tree.binary Symbol.starStar.spelling base exponent) := by
  intro tokens same
  obtain ⟨before,sign,after,rfl,kind,leftWords,rightWords⟩ := binaryWord same
  exact .power kind (first before leftWords) (last after rightWords)

theorem argumentsDerive (each : ∀ t ∈ ts, Derives .disjunction t) :
    ∀ tokens, tokens.map Token.word = Tree.argumentWords ((ts.map Tree.expression).map Tree.argument) →
      Arguments tokens (ts.map Tree.expression) := by
  induction ts with
  | nil =>
    intro tokens same
    cases List.map_eq_nil_iff.mp same
    exact .none
  | cons t ts ih =>
    obtain ⟨first,others⟩ := List.forall_mem_cons.mp each
    intro tokens same
    cases ts with
    | nil => exact .one (first tokens same)
    | cons u ts =>
      obtain ⟨tokens,rest,rfl,within,same⟩ := List.map_eq_append_iff.mp same
      obtain ⟨comma,rest,rfl,kind,same⟩ := List.map_eq_cons_iff.mp same
      exact .more (first tokens within) (symbolWord kind) (ih others rest same)

theorem derivesCall {callee : String} (each : ∀ t ∈ ts, Derives .disjunction t) :
    Derives .primary (Tree.call callee (ts.map Tree.expression)) := by
  intro tokens same
  obtain ⟨name,rest,rfl,named,same⟩ := List.map_eq_cons_iff.mp same
  obtain ⟨opening,rest,rfl,opens,same⟩ := List.map_eq_cons_iff.mp same
  obtain ⟨tokens,closed,rfl,within,ends⟩ := List.map_eq_append_iff.mp same
  obtain ⟨closing,rfl,closes⟩ := singleWord ends
  obtain ⟨kind,rfl⟩ := textWord named
  exact .call kind (symbolWord opens) (argumentsDerive each tokens within) (symbolWord closes)

theorem formulaRank (h : Tree.Formula t) : 1 ≤ t.rank := by
  have signs : ∀ s ∈ [Symbol.bang,.minus], 1 ≤ Tree.unaryRank s.spelling := by decide
  have joints : ∀ s ∈ binaryOperators, 1 ≤ Tree.binaryRank s.spelling := by decide
  cases h with
  | integer | string | identifier | boolean | call => exact Nat.le_of_ble_eq_true rfl
  | unary sign _ => exact signs _ sign
  | binary joint _ _ => exact joints _ joint

theorem formulaDerives (h : Tree.Formula t) : ∀ l : Level, l.rank ≤ t.rank → Derives l t.enclosed := by
  induction h with
  | integer _ => exact fun l _ => derivesAnywhere (derivesText Tree.integer rfl .integer) l
  | string _ => exact fun l _ => derivesAnywhere (derivesText Tree.string rfl .string) l
  | identifier _ => exact fun l _ => derivesAnywhere (derivesText Tree.identifier rfl .name) l
  | boolean truth => exact fun l _ => derivesAnywhere (derivesBoolean truth) l
  | @call callee inner _ each ih =>
    refine fun l _ => derivesAnywhere ?_ l
    rw [Tree.enclosedCall]
    refine derivesCall (List.forall_mem_map.mpr (fun t member => ?_))
    exact ih t member .disjunction (formulaRank (each t member))
  | @unary s t sign operand ih =>
    intro l less
    obtain ⟨m,next,form⟩ := Level.signForm sign
    have rank := Level.signNeeds form
    have inner := derivesPlaced (formulaRank operand) ih (Nat.le_of_eq rank.symm)
    exact derivesLooser (rank ▸ less) (derivesUnary form inner)
  | @binary s left right joint first last ihFirst ihLast =>
    intro l less
    rcases Level.jointForm joint with rfl | ⟨m,operators,next,form,member⟩
    · have base := derivesPlaced (l := .primary) (formulaRank first) ihFirst (Nat.le_refl 9)
      have exponent := derivesPlaced (l := .factor) (formulaRank last) ihLast (Nat.le_refl 7)
      exact derivesLooser (m := .power) less (derivesPower base exponent)
    · obtain ⟨rank,leftNeed,_⟩ := Level.chainNeeds form member
      have rightNeed := Level.chainRight form member
      have left := derivesPlaced (formulaRank first) ihFirst (Nat.le_of_eq leftNeed.symm)
      have right := derivesPlaced (formulaRank last) ihLast (Nat.le_of_eq rightNeed.symm)
      exact derivesLooser (rank ▸ less) (derivesChain form member left right)

end Grammar
end JutsuSyntax
