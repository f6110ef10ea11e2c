import JutsuSyntax.Cursor.Progress
import JutsuSyntax.Expression.Level

/-! Reading expressions, level by level. The recursion carries along how many tokens it has
passed; `levelChain`, `levelSign`, `levelPower`, `levelPrimary`, `chainStep`, `chainStop`,
`argumentsStep` and `argumentListStep` state the productions without it. -/
namespace JutsuSyntax.Cursor

namespace Consuming
variable {c : Cursor}

def stay {α : Type} (r : Except ParseError α) (c : Cursor) : Consuming 0 c α :=
  ⟨⟨r,c⟩,Nat.le_refl _,fun _ _ => Nat.le_refl _⟩

def leaf (t : Tree) (more : c.kind ≠ .finish) : Consuming 1 c Tree :=
  ⟨⟨.ok t,c.advance⟩,advanceNever c,fun _ _ => Nat.le_of_eq (advanceShortens more)⟩

def refuse (context : Context) (c : Cursor) : Consuming 1 c Tree :=
  ⟨⟨.error (.noAlternative context c.current),c⟩,Nat.le_refl _,nofun⟩

theorem symbolMore {s : Token.Symbol} (h : c.kind = .symbol s) : c.kind ≠ .finish := by
  simp [h]

theorem symbolLeft {s : Token.Symbol} (h : c.kind = .symbol s) : c.advance.left + 1 ≤ c.left :=
  Nat.le_of_eq (advanceShortens (symbolMore h))

mutual

def level (l : Level) (c : Cursor) : Consuming 1 c Tree :=
  match form : l.form with
  | .chain operators operand =>
    have tighter := Level.rankChain form
    have bound := operand.rankBound
    (level operand c).andThen (fun left d _ => chain operators operand left d)
  | .sign operator operand =>
    have tighter := Level.rankSign form
    have bound := operand.rankBound
    if sign : c.kind = .symbol operator then
      have passed := symbolLeft sign
      ((level l c.advance).map (Tree.unary operator.spelling)).later passed (by omega)
    else level operand c
  | .power =>
    have tighter := Level.rankPower form
    (level .primary c).andThen (fun base d _ =>
      if sign : d.kind = .symbol .starStar then
        have passed := symbolLeft sign
        ((level .factor d.advance).map (Tree.binary Token.Symbol.starStar.spelling base)).later
          passed (by omega)
      else stay (.ok base) d)
  | .primary =>
    match kind : c.kind with
    | .integer => leaf (Tree.integer c.payload) (by simp [kind])
    | .string => leaf (Tree.string c.payload) (by simp [kind])
    | .symbol .trueWord => leaf (Tree.boolean true) (by simp [kind])
    | .symbol .falseWord => leaf (Tree.boolean false) (by simp [kind])
    | .symbol .openParen =>
      have passed := symbolLeft kind
      ((level .disjunction c.advance).andThen (fun inner d _ =>
        (expect (.symbol .closeParen) nofun d).map (fun _ => Tree.expression inner))).later
        passed (by omega)
    | .name =>
      have named := advanceShortens (by simp [kind] : c.kind ≠ .finish)
      if called : c.advance.kind = .symbol .openParen then
        have passed : c.advance.advance.left + 2 ≤ c.left := by have := symbolLeft called; omega
        ((arguments c.advance.advance).andThen (fun inner d _ =>
          (expect (.symbol .closeParen) nofun d).map (fun _ => Tree.call c.payload inner))).later
          passed (by omega)
      else leaf (Tree.identifier c.payload) (by simp [kind])
    | _ => refuse .expression c
termination_by c.left * 12 + (10 - l.rank)

def chain (operators : List Token.Symbol) (operand : Level) (left : Tree) (c : Cursor) :
    Consuming 0 c Tree :=
  match kind : c.kind with
  | .symbol s =>
    have passed := symbolLeft kind
    if s ∈ operators then
      ((level operand c.advance).andThen (fun right d _ =>
        chain operators operand (Tree.binary s.spelling left right) d)).later passed (by omega)
    else stay (.ok left) c
  | _ => stay (.ok left) c
termination_by c.left * 12

def arguments (c : Cursor) : Consuming 0 c (List Tree) :=
  if c.kind = .symbol .closeParen then stay (.ok []) c
  else (argumentList c).loose
termination_by c.left * 12 + 11

def argumentList (c : Cursor) : Consuming 1 c (List Tree) :=
  (level .disjunction c).andThen (fun t d _ =>
    if comma : d.kind = .symbol .comma then
      have passed := symbolLeft comma
      ((argumentList d.advance).map (Tree.expression t :: ·)).later passed (by omega)
    else stay (.ok [Tree.expression t]) d)
termination_by c.left * 12 + 10
decreasing_by
  · exact Nat.add_lt_add_left (by decide) _
  · omega

end

end Consuming

def level (l : Level) (c : Cursor) : Parsed Tree := (Consuming.level l c).val

def chain (operators : List Token.Symbol) (operand : Level) (left : Tree) (c : Cursor) :
    Parsed Tree := (Consuming.chain operators operand left c).val

def arguments (c : Cursor) : Parsed (List Tree) := (Consuming.arguments c).val

def argumentList (c : Cursor) : Parsed (List Tree) := (Consuming.argumentList c).val

def expression (c : Cursor) : Parsed Tree := (c.level .disjunction).map Tree.expression

theorem levelConsumes (l : Level) (c : Cursor) : Consumes 1 c (c.level l) :=
  (Consuming.level l c).property

theorem expressionConsumes (c : Cursor) : Consumes 1 c c.expression :=
  (levelConsumes .disjunction c).map _

def primary (c : Cursor) : Parsed Tree :=
  match c.kind with
  | .integer => ⟨.ok (Tree.integer c.payload),c.advance⟩
  | .string => ⟨.ok (Tree.string c.payload),c.advance⟩
  | .symbol .trueWord => ⟨.ok (Tree.boolean true),c.advance⟩
  | .symbol .falseWord => ⟨.ok (Tree.boolean false),c.advance⟩
  | .symbol .openParen =>
    c.advance.expression.andThen (fun inner d => (d.expect (.symbol .closeParen)).map (fun _ => inner))
  | .name =>
    if c.advance.kind = .symbol .openParen then
      c.advance.advance.arguments.andThen (fun inner d =>
        (d.expect (.symbol .closeParen)).map (fun _ => Tree.call c.payload inner))
    else ⟨.ok (Tree.identifier c.payload),c.advance⟩
  | _ => ⟨.error (.noAlternative .expression c.current),c⟩

theorem levelChain {l operand : Level} {operators} (h : l.form = .chain operators operand)
    (c : Cursor) : c.level l = (c.level operand).andThen (chain operators operand) := by
  unfold level
  rw [Consuming.level.eq_def]
  split <;> simp_all only [Level.Form.chain.injEq,reduceCtorEq]
  exact Consuming.andThenVal (fun _ _ _ => rfl)

theorem levelSign {l operand : Level} {operator} (h : l.form = .sign operator operand)
    (c : Cursor) : c.level l =
      if c.kind = .symbol operator then (c.advance.level l).map (Tree.unary operator.spelling)
      else c.level operand := by
  unfold level
  rw [Consuming.level.eq_def]
  split <;> simp_all only [Level.Form.sign.injEq,reduceCtorEq]
  split <;> rfl

theorem levelPower (c : Cursor) : c.level .power =
    (c.level .primary).andThen (fun base d =>
      if d.kind = .symbol .starStar then
        (d.advance.level .factor).map (Tree.binary Token.Symbol.starStar.spelling base)
      else ⟨.ok base,d⟩) := by
  unfold level
  rw [Consuming.level.eq_def]
  refine Consuming.andThenVal (fun base d _ => ?_)
  split <;> rfl

theorem levelPrimary (c : Cursor) : c.level .primary = c.primary := by
  unfold level
  rw [Consuming.level.eq_def]
  simp only [Level.form]
  split <;> rename_i kind
  · simp only [primary,kind]; rfl
  · simp only [primary,kind]; rfl
  · simp only [primary,kind]; rfl
  · simp only [primary,kind]; rfl
  · simp only [primary,kind,expression,Reply.mapAndThen]
    exact Consuming.andThenVal (fun _ _ _ => rfl)
  · simp only [primary,kind]
    split
    · exact Consuming.andThenVal (fun _ _ _ => rfl)
    · rfl
  · unfold primary
    split <;> try contradiction
    rfl

theorem chainStep {operators : List Token.Symbol} {s : Token.Symbol} (member : s ∈ operators)
    {c : Cursor} (next : c.kind = .symbol s) (operand left) : chain operators operand left c =
      (c.advance.level operand).andThen (fun right d =>
        chain operators operand (Tree.binary s.spelling left right) d) := by
  unfold chain
  rw [Consuming.chain.eq_def]
  split
  · rename_i t kind
    cases kind.symm.trans next
    simp only [member,if_true]
    exact Consuming.andThenVal (fun _ _ _ => rfl)
  · rename_i other
    exact absurd next (other s)

theorem chainStop {operators : List Token.Symbol} {c : Cursor}
    (other : ∀ s ∈ operators, c.kind ≠ .symbol s) (operand left) :
    chain operators operand left c = ⟨.ok left,c⟩ := by
  unfold chain
  rw [Consuming.chain.eq_def]
  split
  · rename_i s kind
    simp only [mt (other s) (not_not_intro kind),if_false]
    rfl
  · rfl

theorem argumentsStep (c : Cursor) : c.arguments =
    if c.kind = .symbol .closeParen then ⟨.ok [],c⟩ else c.argumentList := by
  unfold arguments
  rw [Consuming.arguments.eq_def]
  split <;> rfl

theorem argumentListStep (c : Cursor) : c.argumentList =
    c.expression.andThen (fun t d =>
      if d.kind = .symbol .comma then d.advance.argumentList.map (t :: ·) else ⟨.ok [t],d⟩) := by
  unfold argumentList
  rw [Consuming.argumentList.eq_def,expression,Reply.mapAndThen]
  refine Consuming.andThenVal (fun t d _ => ?_)
  split <;> rfl

end JutsuSyntax.Cursor
