import JutsuSyntax.Grammar

/-! The shape of trees: what a node of each kind holds, and how tightly the operands of an
operator have to bind. What the grammar makes has this shape in every node. -/
namespace JutsuSyntax
open Token (Symbol)

namespace Tree

mutual
def nodes : Tree → List Tree
  | ⟨kind,value,children⟩ => ⟨kind,value,children⟩ :: nodesAll children
def nodesAll : List Tree → List Tree
  | [] => []
  | t :: ts => nodes t ++ nodesAll ts
end

def binaryRank : String → Nat
  | "or" => 1
  | "and" => 2
  | "==" | "!=" | "<=" | "<" | ">=" | ">" => 4
  | "+" | "-" => 5
  | "*" | "/" | "//" | "%" => 6
  | "**" => 8
  | _ => 0

def unaryRank : String → Nat
  | "!" => 3
  | "-" => 7
  | _ => 0

def rank (t : Tree) : Nat :=
  match t.kind, t.value with
  | .binary, some operator => binaryRank operator
  | .unary, some operator => unaryRank operator
  | .expression, _ | .call, _ | .identifier, _ | .integer, _ | .string, _ | .boolean, _ => 9
  | _, _ => 0

def leftNeed (operator : String) : Nat :=
  if operator = "**" then 9 else binaryRank operator

def rightNeed (operator : String) : Nat :=
  if operator = "**" then 7 else binaryRank operator + 1

def binds (t : Tree) : Bool :=
  match t.kind, t.value, t.children with
  | .binary, some operator, [left,right] =>
    leftNeed operator ≤ left.rank && rightNeed operator ≤ right.rank
  | .unary, some operator, [operand] => unaryRank operator ≤ operand.rank
  | _, _, _ => true

def updates (target value : Tree) : Bool :=
  value.kind == .binary && value.value.any (["+","-","*","/","//","**"].contains ·) &&
    value.children.head? == some target

def isStatement (t : Tree) : Bool :=
  match t.kind with
  | .assignment | .returned | .conditional | .definition | .expression => true
  | .call => t.value == some "print" && t.children.length == 1
  | _ => false

def fits (t : Tree) : Bool :=
  match t.kind, t.value, t.children with
  | .program, none, statements | .body, none, statements => statements.all isStatement
  | .assignment, none, [target,value] =>
    target.kind == .identifier && (value.kind == .expression || updates target value)
  | .returned, none, [value] | .argument, none, [value] => value.kind == .expression
  | .call, some _, inner => inner.all (·.kind == .argument)
  | .conditional, none, [condition] => condition.kind == .expression
  | .conditional, none, [condition,inner] =>
    condition.kind == .expression && inner.kind == .body && !inner.children.isEmpty
  | .binary, some operator, [left,right] =>
    0 < binaryRank operator && 0 < left.rank && 0 < right.rank
  | .unary, some operator, [operand] => 0 < unaryRank operator && 0 < operand.rank
  | .expression, none, [inner] => 0 < inner.rank
  | .definition, some _, parts =>
    parts.dropLast.all (·.kind == .identifier) && parts.getLast?.any (·.kind == .body)
  | .identifier, some _, [] | .integer, some _, [] | .string, some _, [] => true
  | .boolean, some truth, [] => truth == "1" || truth == "0"
  | _, _, _ => false

def Proper (t : Tree) : Prop :=
  t.fits ∧ (t.kind ≠ .assignment → ∀ child ∈ t.children, child.binds)

def ProperBelow (t : Tree) : Prop := ∀ u ∈ t.nodes, Proper u

variable {t u : Tree} {ts us : List Tree} {m n : Nat}

theorem memNodesAll : u ∈ nodesAll ts ↔ ∃ t ∈ ts, u ∈ t.nodes := by
  induction ts with
  | nil => simp [nodesAll]
  | cons t ts ih => simp [nodesAll,ih]

theorem properNode (own : Proper t) (below : ∀ child ∈ t.children, ProperBelow child) :
    ProperBelow t := by
  intro u member
  obtain ⟨kind,value,children⟩ := t
  rw [nodes,List.mem_cons] at member
  rcases member with rfl | inside
  · exact own
  · obtain ⟨child,among,within⟩ := memNodesAll.mp inside
    exact below child among u within

theorem properLeaf {kind : Kind} {value : String} (own : (leaf kind value).fits) :
    ProperBelow (leaf kind value) :=
  properNode ⟨own,fun _ => nofun⟩ nofun

structure Holds (need : Nat) (t : Tree) : Prop where
  rank : need ≤ t.rank
  binds : t.binds
  below : ProperBelow t

theorem Holds.looser (h : Holds n t) (less : m ≤ n) : Holds m t :=
  ⟨Nat.le_trans less h.rank,h.binds,h.below⟩

theorem holdsLeaf {kind : Kind} {value : String} (own : (leaf kind value).fits)
    (atom : (leaf kind value).rank = 9) : Holds 9 (leaf kind value) :=
  ⟨Nat.le_of_eq atom.symm,by cases kind <;> rfl,properLeaf own⟩

theorem holdsUnary {operator : String} (sign : 0 < unaryRank operator)
    (operand : Holds (unaryRank operator) t) : Holds (unaryRank operator) (unary operator t) := by
  have filled := Nat.lt_of_lt_of_le sign operand.rank
  refine ⟨Nat.le_refl _,by simpa [unary,binds] using operand.rank,properNode ⟨?_,?_⟩ ?_⟩
  · simpa [unary,fits] using ⟨sign,filled⟩
  · simpa [unary] using operand.binds
  · simpa [unary] using operand.below

theorem properBinary {operator : String} (known : 0 < binaryRank operator)
    (left : Holds m t) (right : Holds n u) (some : 0 < m) (also : 0 < n) :
    ProperBelow (binary operator t u) := by
  have first := Nat.lt_of_lt_of_le some left.rank
  have second := Nat.lt_of_lt_of_le also right.rank
  refine properNode ⟨?_,?_⟩ ?_
  · simpa [binary,fits,and_assoc] using ⟨known,first,second⟩
  · simpa [binary] using ⟨left.binds,right.binds⟩
  · simpa [binary] using ⟨left.below,right.below⟩

theorem holdsBinary {operator : String} (known : 0 < binaryRank operator)
    (left : Holds (leftNeed operator) t) (right : Holds (rightNeed operator) u) :
    Holds (binaryRank operator) (binary operator t u) := by
  have some : 0 < leftNeed operator := by
    unfold leftNeed
    split <;> omega
  have also : 0 < rightNeed operator := by
    unfold rightNeed
    split <;> omega
  refine ⟨Nat.le_refl _,?_,properBinary known left right some also⟩
  simpa [binary,binds] using ⟨left.rank,right.rank⟩

theorem holdsExpression (inner : Holds n t) (some : 0 < n) : Holds 9 (expression t) := by
  have filled := Nat.lt_of_lt_of_le some inner.rank
  refine ⟨Nat.le_refl _,rfl,properNode ⟨?_,?_⟩ ?_⟩
  · simpa [expression,fits] using filled
  · simpa [expression] using inner.binds
  · simpa [expression] using inner.below

structure Marked (t : Tree) : Prop where
  marked : t.kind = .expression
  below : ProperBelow t

theorem Marked.binds (h : Marked t) : t.binds := by
  simp [Tree.binds,h.marked]

theorem holdsMarked (inner : Holds n t) (some : 0 < n) : Marked (expression t) :=
  ⟨rfl,(holdsExpression inner some).below⟩

theorem holdsCall {callee : String} (inner : ∀ t ∈ ts, Marked t) : Holds 9 (call callee ts) := by
  refine ⟨Nat.le_refl _,rfl,properNode ⟨?_,?_⟩ ?_⟩
  · simp [call,fits,argument]
  · simp [call,argument,Tree.binds]
  · intro child member
    obtain ⟨t,among,rfl⟩ := List.mem_map.mp member
    refine properNode ⟨by simp [argument,fits,(inner t among).marked],?_⟩ ?_
    · simpa [argument] using (inner t among).binds
    · simpa [argument] using (inner t among).below

structure Stands (t : Tree) : Prop where
  statement : t.isStatement
  binds : t.binds
  below : ProperBelow t

theorem standsMarked (h : Marked t) : Stands t :=
  ⟨by simp [isStatement,h.marked],h.binds,h.below⟩

theorem standsReturned (value : Marked t) : Stands (returned t) := by
  refine ⟨rfl,rfl,properNode ⟨?_,?_⟩ ?_⟩
  · simpa [returned,fits] using value.marked
  · simpa [returned] using value.binds
  · simpa [returned] using value.below

theorem standsPrint (value : Marked t) : Stands (call "print" [t]) :=
  ⟨rfl,rfl,(holdsCall (by simpa using value)).below⟩

theorem standsAssignment {name : String} (value : Marked t) :
    Stands (assignment (identifier name) t) := by
  refine ⟨rfl,rfl,properNode ⟨?_,by simp [assignment]⟩ ?_⟩
  · simp [assignment,fits,identifier,leaf,value.marked]
  · simpa [assignment] using ⟨properLeaf rfl,value.below⟩

theorem standsAugmented {name operator : String}
    (known : ["+","-","*","/","//","**"].contains operator ∧ 0 < binaryRank operator)
    (value : Holds 1 t) :
    Stands (assignment (identifier name) (binary operator (identifier name) t)) := by
  have target : Holds 9 (identifier name) := holdsLeaf rfl rfl
  have sum := properBinary known.2 target value (by decide) (by decide)
  refine ⟨rfl,rfl,properNode ⟨?_,by simp [assignment]⟩ ?_⟩
  · simpa [assignment,fits,updates,binary,identifier,leaf] using known.1
  · simpa [assignment] using ⟨target.below,sum⟩

theorem properStatements {kind : Kind} (holder : kind = .program ∨ kind = .body)
    (inner : ∀ t ∈ ts, Stands t) : ProperBelow ⟨kind,none,ts⟩ := by
  refine properNode ⟨?_,fun _ child member => (inner child member).binds⟩
    (fun child member => (inner child member).below)
  have statements := fun child member => (inner child member).statement
  rcases holder with rfl | rfl <;> simpa [fits] using statements

theorem standsConditional (condition : Marked t) (inner : ∀ t ∈ ts, Stands t) :
    Stands (conditional t ts) := by
  have nested : ProperBelow (body ts) := properStatements (.inr rfl) inner
  refine ⟨rfl,rfl,?_⟩
  cases ts with
  | nil =>
    refine properNode ⟨?_,?_⟩ ?_
    · simpa [conditional,fits] using condition.marked
    · simpa [conditional] using condition.binds
    · simpa [conditional] using condition.below
  | cons first others =>
    refine properNode ⟨?_,?_⟩ ?_
    · simpa [conditional,fits,body] using condition.marked
    · simpa [conditional,body,Tree.binds] using condition.binds
    · simpa [conditional] using ⟨condition.below,nested⟩

theorem standsDefinition {name : String} {parameters : List String} (inner : ∀ t ∈ ts, Stands t) :
    Stands (definition name parameters ts) := by
  have nested : ProperBelow (body ts) := properStatements (.inr rfl) inner
  have parts {p : Tree → Prop} (each : ∀ parameter, p (identifier parameter)) (last : p (body ts)) :
      ∀ child ∈ (definition name parameters ts).children, p child := by
    simpa [definition,or_imp,forall_and] using ⟨fun parameter _ => each parameter,last⟩
  refine ⟨rfl,rfl,properNode ⟨?_,fun _ => parts (fun _ => rfl) rfl⟩ (parts (fun _ => properLeaf rfl) nested)⟩
  simp [definition,fits,identifier,leaf,body]

end Tree

namespace Level
variable {l next : Level} {operators : List Symbol} {s : Symbol}

theorem chainNeeds (form : l.form = .chain operators next) (member : s ∈ operators) :
    Tree.binaryRank s.spelling = l.rank ∧ Tree.leftNeed s.spelling = l.rank ∧
      Tree.rightNeed s.spelling ≤ next.rank := by
  revert s
  cases l <;> cases form <;> decide

theorem signNeeds (form : l.form = .sign s next) : Tree.unaryRank s.spelling = l.rank := by
  cases l <;> cases form <;> rfl

theorem augmentsUpdates {operator : Symbol} (applies : s.augments = some operator) :
    ["+","-","*","/","//","**"].contains operator.spelling ∧ 0 < Tree.binaryRank operator.spelling := by
  cases s <;> cases applies <;> decide

end Level

namespace Grammar
open JutsuSyntax.Tree

mutual
theorem operandHolds {l tokens t} : Operand l tokens t → Holds l.rank t
  | .tighter form only => (operandHolds only).looser (Nat.le_of_lt (Level.rankChain form))
  | .chain form member _ first last => by
    obtain ⟨rank,left,right⟩ := Level.chainNeeds form member
    have known : 0 < binaryRank _ := rank ▸ l.rankBound.1
    rw [← rank]
    exact holdsBinary known (left ▸ operandHolds first) ((operandHolds last).looser right)
  | .unsigned form only => (operandHolds only).looser (Nat.le_of_lt (Level.rankSign form))
  | .signed form _ operand => by
    have rank := Level.signNeeds form
    have known : 0 < unaryRank _ := rank ▸ l.rankBound.1
    rw [← rank]
    exact holdsUnary known (rank ▸ operandHolds operand)
  | .base only => (operandHolds only).looser (by decide)
  | .power _ first last => @holdsBinary _ _ "**" (by decide) (operandHolds first) (operandHolds last)
  | .integer _ | .string _ | .name _ | .truth _ | .falsity _ => holdsLeaf rfl rfl
  | .paren _ inner _ => holdsExpression (operandHolds inner) (by decide)
  | .call _ _ inner _ => holdsCall (argumentsMarked inner)
theorem argumentsMarked {tokens ts} : Arguments tokens ts → ∀ t ∈ ts, Marked t
  | .none => List.forall_mem_nil _
  | .one only => by
    simpa using holdsMarked (operandHolds only) (by decide)
  | .more first _ rest => by
    have others := argumentsMarked rest
    rw [List.forall_mem_cons]
    exact ⟨holdsMarked (operandHolds first) (by decide),others⟩
end

theorem operandMarked {tokens t} (o : Operand .disjunction tokens t) : Marked (expression t) :=
  holdsMarked (operandHolds o) (by decide)

mutual
theorem statementStands {tokens t} : Statement tokens t → Stands t
  | .expression only => standsMarked (operandMarked only)
  | .assignment _ _ value => standsAssignment (operandMarked value)
  | .augmented _ _ applies value => standsAugmented (Level.augmentsUpdates applies) (operandHolds value)
  | .returned _ value => standsReturned (operandMarked value)
  | .print _ value => standsPrint (operandMarked value)
  | .conditional _ condition body => standsConditional (operandMarked condition) (bodyStands body)
  | .definition _ _ _ _ _ body => standsDefinition (bodyStands body)
theorem bodyStands {tokens ts} : Body tokens ts → ∀ t ∈ ts, Stands t
  | .braces _ inner _ => statementsStand inner
theorem statementsStand {tokens ts} : Statements tokens ts → ∀ t ∈ ts, Stands t
  | .none => List.forall_mem_nil _
  | .blank _ rest => statementsStand rest
  | .more first _ rest => List.forall_mem_cons.mpr ⟨statementStands first,statementsStand rest⟩
end

theorem linesStand {tokens ts} (h : Lines tokens ts) : ∀ t ∈ ts, Stands t := by
  induction h with
  | none => exact List.forall_mem_nil _
  | last only => simpa using statementStands only
  | blank _ rest ih => exact ih
  | line first _ rest ih => exact List.forall_mem_cons.mpr ⟨statementStands first,ih⟩

end Grammar
end JutsuSyntax
