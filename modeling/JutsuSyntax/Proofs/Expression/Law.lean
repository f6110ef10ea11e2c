import JutsuSyntax.Proofs.Cursor.Law

/-! What every way of putting productions together keeps holds of the productions that read
expressions. -/
namespace JutsuSyntax.Cursor.Law
open Token (Symbol)

variable {holds : (α : Type) → (Cursor → Parsed α) → Cursor → Prop} {c : Cursor} {l next : Level}
  {operators : List Symbol} {s : Symbol} {left : Tree}

theorem levelChain (law : Law holds) (form : l.form = .chain operators next)
    (first : holds Tree (Cursor.level next) c)
    (go : ∀ t, holds Tree (Cursor.chain operators next t) (Cursor.level next c).after) :
    holds Tree (Cursor.level l) c := by
  rw [funext (Cursor.levelChain form)]
  exact law.andThen first (fun t _ => go t)

theorem chainStep (law : Law holds) (member : s ∈ operators) (kind : c.kind = .symbol s)
    (first : holds Tree (Cursor.level next) c.advance)
    (go : ∀ t, holds Tree (Cursor.chain operators next t) (Cursor.level next c.advance).after) :
    holds Tree (Cursor.chain operators next left) c := by
  refine law.passSymbol kind (law.andThen first (fun t _ => go (Tree.binary s.spelling left t))) ?_
  intro d same _
  exact Cursor.chainStep member (same.trans kind) next left

theorem chainStop (law : Law holds) (other : ∀ s ∈ operators, c.kind ≠ .symbol s) :
    holds Tree (Cursor.chain operators next left) c := by
  refine law.congr (law.stay left) (fun d same _ => ?_)
  exact Cursor.chainStop (fun s member => same ▸ other s member) next left

theorem levelSigned (law : Law holds) (form : l.form = .sign s next) (kind : c.kind = .symbol s)
    (operand : holds Tree (Cursor.level l) c.advance) : holds Tree (Cursor.level l) c := by
  refine law.passSymbol kind (law.map operand (Tree.unary s.spelling)) (fun d same _ => ?_)
  rw [Cursor.levelSign form,if_pos (same.trans kind)]

theorem levelUnsigned (law : Law holds) (form : l.form = .sign s next) (other : c.kind ≠ .symbol s)
    (operand : holds Tree (Cursor.level next) c) : holds Tree (Cursor.level l) c := by
  refine law.congr operand (fun d same _ => ?_)
  rw [Cursor.levelSign form,if_neg (same ▸ other)]

theorem levelPower (law : Law holds) (first : holds Tree (Cursor.level .primary) c)
    (go : (Cursor.level .primary c).after.kind = .symbol .starStar →
      holds Tree (Cursor.level .factor) (Cursor.level .primary c).after.advance) :
    holds Tree (Cursor.level .power) c := by
  rw [funext Cursor.levelPower]
  refine law.andThen first (fun base _ => ?_)
  by_cases sign : (Cursor.level .primary c).after.kind = .symbol .starStar
  · refine law.passSymbol sign (law.map (go sign) (Tree.binary Symbol.starStar.spelling base)) ?_
    exact fun d same _ => if_pos (same.trans sign)
  · exact law.congr (law.stay base) (fun d same _ => if_neg (same ▸ sign))

theorem primaryLeaf (law : Law holds) {t : Tree} (more : c.kind ≠ .finish) (plain : c.kind ≠ .newline)
    (read : ∀ d : Cursor, d.kind = c.kind → d.payload = c.payload → d.primary = ⟨.ok t,d.advance⟩) :
    holds Tree primary c :=
  law.pass more plain (law.stay t) read

theorem primaryRefused (law : Law holds)
    (read : ∀ d : Cursor, d.kind = c.kind →
      d.primary = ⟨.error (.noAlternative .expression d.current),d⟩) : holds Tree primary c :=
  law.congr (law.refuse (by simp)) (fun d same _ => read d same)

theorem primaryName (law : Law holds) (kind : c.kind = .name)
    (call : c.advance.kind = .symbol .openParen → holds (List Tree) Cursor.arguments c.advance.advance) :
    holds Tree primary c := by
  refine law.pass (q := fun d => if d.kind = .symbol .openParen then
      d.advance.arguments.andThen (fun inner e =>
        (e.expect (.symbol .closeParen)).map (fun _ => Tree.call c.payload inner))
    else ⟨.ok (Tree.identifier c.payload),d⟩) (by simp [kind]) (by simp [kind]) ?_ ?_
  · by_cases opens : c.advance.kind = .symbol .openParen
    · refine law.passSymbol opens (law.closed (call opens) .closeParen (Tree.call c.payload)) ?_
      exact fun d same _ => if_pos (same.trans opens)
    · refine law.congr (law.stay (Tree.identifier c.payload)) ?_
      exact fun d same _ => if_neg (same ▸ opens)
  · intro d same payload
    rw [primary,same.trans kind,payload]

theorem primaryKinds (law : Law holds)
    (inner : c.kind = .symbol .openParen → holds Tree (Cursor.level .disjunction) c.advance)
    (call : c.kind = .name → c.advance.kind = .symbol .openParen →
      holds (List Tree) Cursor.arguments c.advance.advance) : holds Tree primary c := by
  cases kind : c.kind with
  | integer =>
    refine law.primaryLeaf (t := Tree.integer c.payload) (by simp [kind]) (by simp [kind]) ?_
    intro d same payload
    rw [primary,same.trans kind,payload]
  | string =>
    refine law.primaryLeaf (t := Tree.string c.payload) (by simp [kind]) (by simp [kind]) ?_
    intro d same payload
    rw [primary,same.trans kind,payload]
  | name => exact law.primaryName kind (call kind)
  | newline | finish => exact law.primaryRefused (fun d same => by rw [primary,same.trans kind])
  | symbol s =>
    by_cases paren : s = .openParen
    · subst paren
      refine law.passSymbol kind (law.closed (law.map (inner kind) Tree.expression) .closeParen id) ?_
      intro d same _
      rw [primary,same.trans kind]
      rfl
    by_cases truth : s = .trueWord
    · subst truth
      refine law.primaryLeaf (t := Tree.boolean true) (by simp [kind]) (by simp [kind]) ?_
      exact fun d same _ => by rw [primary,same.trans kind]
    by_cases falsity : s = .falseWord
    · subst falsity
      refine law.primaryLeaf (t := Tree.boolean false) (by simp [kind]) (by simp [kind]) ?_
      exact fun d same _ => by rw [primary,same.trans kind]
    refine law.primaryRefused (fun d same => ?_)
    rw [primary,same.trans kind]
    split <;> simp_all

theorem argumentListStep (law : Law holds) (first : holds Tree (Cursor.level .disjunction) c)
    (go : (Cursor.level .disjunction c).after.kind = .symbol .comma →
      holds (List Tree) Cursor.argumentList (Cursor.level .disjunction c).after.advance) :
    holds (List Tree) Cursor.argumentList c := by
  rw [funext Cursor.argumentListStep]
  refine law.andThen (law.map first Tree.expression) (fun t _ => ?_)
  change holds _ _ (Cursor.level .disjunction c).after
  by_cases comma : (Cursor.level .disjunction c).after.kind = .symbol .comma
  · refine law.passSymbol comma (law.map (go comma) (t :: ·)) ?_
    exact fun d same _ => if_pos (same.trans comma)
  · exact law.congr (law.stay [t]) (fun d same _ => if_neg (same ▸ comma))

theorem argumentsStep (law : Law holds)
    (list : c.kind ≠ .symbol .closeParen → holds (List Tree) Cursor.argumentList c) :
    holds (List Tree) Cursor.arguments c := by
  by_cases closes : c.kind = .symbol .closeParen
  · refine law.congr (law.stay []) (fun d same _ => ?_)
    rw [Cursor.argumentsStep,if_pos (same.trans closes)]
  · refine law.congr (list closes) (fun d same _ => ?_)
    rw [Cursor.argumentsStep,if_neg (same ▸ closes)]

mutual
theorem level (law : Law holds) (l : Level) (c : Cursor) : holds Tree (Cursor.level l) c := by
  match form : l.form with
  | .chain operators next =>
    have tighter := Level.rankChain form
    have bound := next.rankBound
    refine law.levelChain form (level law next c) (fun t => ?_)
    have never := (levelConsumes next c).1
    exact chain law operators next t (Cursor.level next c).after
  | .sign operator next =>
    have tighter := Level.rankSign form
    have bound := next.rankBound
    by_cases sign : c.kind = .symbol operator
    · have shorter := Consuming.symbolLeft sign
      exact law.levelSigned form sign (level law l c.advance)
    · exact law.levelUnsigned form sign (level law next c)
  | .power =>
    have tighter := Level.rankPower form
    rw [Level.formPower form]
    refine law.levelPower (level law .primary c) (fun sign => ?_)
    have never := (levelConsumes .primary c).1
    have shorter := Consuming.symbolLeft sign
    exact level law .factor (Cursor.level .primary c).after.advance
  | .primary =>
    rw [Level.formPrimary form,funext levelPrimary]
    refine law.primaryKinds (fun opens => ?_) (fun named opens => ?_)
    · have shorter := Consuming.symbolLeft opens
      exact level law .disjunction c.advance
    · have shorter := Consuming.symbolLeft opens
      have never := advanceNever c
      exact arguments law c.advance.advance
termination_by c.left * 12 + (10 - l.rank)
decreasing_by
  all_goals
    have := l.rankBound
    have := Level.primary.rankBound
    omega
theorem chain (law : Law holds) (operators : List Symbol) (next : Level) (left : Tree) (c : Cursor) :
    holds Tree (Cursor.chain operators next left) c := by
  by_cases goes : ∃ s ∈ operators, c.kind = .symbol s
  · obtain ⟨s,member,kind⟩ := goes
    have bound := next.rankBound
    have shorter := Consuming.symbolLeft kind
    have never := (levelConsumes next c.advance).1
    refine law.chainStep member kind (level law next c.advance) (fun t => ?_)
    exact chain law operators next t (Cursor.level next c.advance).after
  · exact law.chainStop (fun s member kind => goes ⟨s,member,kind⟩)
termination_by c.left * 12
theorem arguments (law : Law holds) (c : Cursor) : holds (List Tree) Cursor.arguments c :=
  law.argumentsStep (fun _ => argumentList law c)
termination_by c.left * 12 + 11
theorem argumentList (law : Law holds) (c : Cursor) : holds (List Tree) Cursor.argumentList c := by
  refine law.argumentListStep (level law .disjunction c) (fun comma => ?_)
  have never := (levelConsumes .disjunction c).1
  have shorter := Consuming.symbolLeft comma
  exact argumentList law (Cursor.level .disjunction c).after.advance
termination_by c.left * 12 + 10
decreasing_by
  · simp [Level.rank]
  · omega
end

theorem expression (law : Law holds) (c : Cursor) : holds Tree Cursor.expression c :=
  law.map (law.level .disjunction c) Tree.expression

end JutsuSyntax.Cursor.Law
