import JutsuSyntax.Proofs.Reader.Basic

/-! Reading expressions by index, level by level. Calls nest at most `depth` deep, and one that
would go deeper has no answer either. Sixteen calls for each token left are enough. -/
namespace JutsuSyntax
open Token (Symbol)

namespace Guarded

def operator (operators : List Symbol) : Guarded (Option Symbol) := do
  match ← accept (operators.map .symbol) with
  | some (.symbol s) => return some s
  | _ => return none

def atCall : Guarded Bool := do
  let token ← peek
  let next ← peekAhead 1
  return token.kind = .name && next.any (·.kind = .symbol .openParen)

mutual

def expression : Nat → Guarded Tree
  | 0 => violated
  | depth + 1 => do return Tree.expression (← level depth .disjunction)

def level : Nat → Level → Guarded Tree
  | 0, _ => violated
  | depth + 1, l => do
    match l.form with
    | .chain operators operand =>
      let left ← level depth operand
      chain depth operators operand left
    | .sign symbol operand =>
      match ← operator [symbol] with
      | some s => return Tree.unary s.spelling (← level depth l)
      | none => level depth operand
    | .power =>
      let base ← level depth .primary
      match ← operator [.starStar] with
      | some s => return Tree.binary s.spelling base (← level depth .factor)
      | none => return base
    | .primary => if ← atCall then call depth else atom depth

def chain : Nat → List Symbol → Level → Tree → Guarded Tree
  | 0, _, _, _ => violated
  | depth + 1, operators, operand, left => do
    match ← operator operators with
    | some s =>
      let right ← level depth operand
      chain depth operators operand (Tree.binary s.spelling left right)
    | none => return left

def call : Nat → Guarded Tree
  | 0 => violated
  | depth + 1 => do
    let callee ← expect .name
    let _ ← expect (.symbol .openParen)
    let inner ← arguments depth
    let _ ← expect (.symbol .closeParen)
    return Tree.call callee.payload inner

def arguments : Nat → Guarded (List Tree)
  | 0 => violated
  | depth + 1 => do
    if (← peek).kind = .symbol .closeParen then return [] else argumentList depth

def argumentList : Nat → Guarded (List Tree)
  | 0 => violated
  | depth + 1 => do
    let t ← expression depth
    match ← accept [.symbol .comma] with
    | some _ => return t :: (← argumentList depth)
    | none => return [t]

def atom : Nat → Guarded Tree
  | 0 => violated
  | depth + 1 => do
    let token ← peek
    match token.kind with
    | .integer =>
      let _ ← advance
      return Tree.integer token.payload
    | .string =>
      let _ ← advance
      return Tree.string token.payload
    | .name =>
      let _ ← advance
      return Tree.identifier token.payload
    | .symbol .trueWord =>
      let _ ← advance
      return Tree.boolean true
    | .symbol .falseWord =>
      let _ ← advance
      return Tree.boolean false
    | .symbol .openParen =>
      let _ ← advance
      let inner ← expression depth
      let _ ← expect (.symbol .closeParen)
      return inner
    | _ => throw (.noAlternative .expression token)

end

variable {depth : Nat} {l operand : Level} {operators : List Symbol} {symbol : Symbol}

theorem levelChain (form : l.form = .chain operators operand) :
    level (depth + 1) l = level depth operand >>= chain depth operators operand := by
  rw [level,form]

theorem levelSign (form : l.form = .sign symbol operand) :
    level (depth + 1) l = operator [symbol] >>= fun
      | some s => do return Tree.unary s.spelling (← level depth l)
      | none => level depth operand := by
  rw [level,form]

theorem levelPower : level (depth + 1) .power = level depth .primary >>= fun base =>
    operator [.starStar] >>= fun
      | some s => do return Tree.binary s.spelling base (← level depth .factor)
      | none => return base := rfl

theorem levelPrimary : level (depth + 1) .primary =
    atCall >>= fun called => if called then call depth else atom depth := rfl

end Guarded

variable {depth : Nat} {r : Reader} {reply : Parsed Tree} {l operand : Level} {operators : List Symbol}
  {s : Symbol} {left : Tree}

namespace Agrees

theorem operated {f : Option Symbol → Guarded Tree} (kind : r.cursor.kind = .symbol s) (member : s ∈ operators)
    (go : ∀ next : Reader, next.cursor = r.cursor.advance → Agrees (f (some s)) next reply) :
    Agrees (Guarded.operator operators >>= f) r reply := by
  have first : Agrees (Guarded.operator operators) r ⟨.ok (some s),r.cursor.advance⟩ := by
    refine accepted (by simp) (by simpa [kind] using member) (fun next same => ?_)
    rw [kind,← same]
    exact pure (some s)
  exact first.step go

theorem unoperated {f : Option Symbol → Guarded Tree} (other : ∀ s ∈ operators, r.cursor.kind ≠ .symbol s)
    (go : ∀ next : Reader, next.cursor = r.cursor → Agrees (f none) next reply) :
    Agrees (Guarded.operator operators >>= f) r reply := by
  have first : Agrees (Guarded.operator operators) r ⟨.ok none,r.cursor⟩ := by
    refine declined (by simp) (fun member => ?_) (fun next same => ?_)
    · obtain ⟨s,member,kind⟩ := List.mem_map.mp member
      exact other s member kind.symm
    · rw [← same]
      exact pure none
  exact first.step go

theorem levelChain (form : l.form = .chain operators operand)
    (first : Agrees (Guarded.level depth operand) r (r.cursor.level operand))
    (go : ∀ t next, Reader.cursor next = (r.cursor.level operand).after →
      Agrees (Guarded.chain depth operators operand t) next (next.cursor.chain operators operand t)) :
    Agrees (Guarded.level (depth + 1) l) r (r.cursor.level l) := by
  rw [Guarded.levelChain form,Cursor.levelChain form]
  exact first.bind (fun t next _ same => go t next same)

theorem chainStep (member : s ∈ operators) (kind : r.cursor.kind = .symbol s)
    (first : ∀ next : Reader, next.cursor = r.cursor.advance →
      Agrees (Guarded.level depth operand) next (next.cursor.level operand))
    (go : ∀ t next, Reader.cursor next = (r.cursor.advance.level operand).after →
      Agrees (Guarded.chain depth operators operand t) next (next.cursor.chain operators operand t)) :
    Agrees (Guarded.chain (depth + 1) operators operand left) r (r.cursor.chain operators operand left) := by
  rw [Guarded.chain,Cursor.chainStep member kind]
  refine operated kind member (fun next same => ?_)
  have right := first next same
  rw [same] at right
  exact right.bind (fun t last _ behind => go _ last behind)

theorem chainStop (other : ∀ s ∈ operators, r.cursor.kind ≠ .symbol s) :
    Agrees (Guarded.chain (depth + 1) operators operand left) r (r.cursor.chain operators operand left) := by
  rw [Guarded.chain,Cursor.chainStop other]
  exact unoperated other (fun next same => same ▸ pure left)

theorem levelSigned (form : l.form = .sign s operand) (kind : r.cursor.kind = .symbol s)
    (go : ∀ next : Reader, next.cursor = r.cursor.advance →
      Agrees (Guarded.level depth l) next (next.cursor.level l)) :
    Agrees (Guarded.level (depth + 1) l) r (r.cursor.level l) := by
  rw [Guarded.levelSign form,Cursor.levelSign form,if_pos kind]
  refine operated kind (List.mem_singleton_self s) (fun next same => ?_)
  rw [← same]
  exact (go next same).map (Tree.unary s.spelling)

theorem levelUnsigned (form : l.form = .sign s operand) (other : r.cursor.kind ≠ .symbol s)
    (go : ∀ next : Reader, next.cursor = r.cursor →
      Agrees (Guarded.level depth operand) next (next.cursor.level operand)) :
    Agrees (Guarded.level (depth + 1) l) r (r.cursor.level l) := by
  rw [Guarded.levelSign form,Cursor.levelSign form,if_neg other]
  refine unoperated (by simpa using other) (fun next same => ?_)
  rw [← same]
  exact go next same

theorem levelPower (first : Agrees (Guarded.level depth .primary) r (r.cursor.level .primary))
    (go : (r.cursor.level .primary).after.kind = .symbol .starStar →
      ∀ next : Reader, next.cursor = (r.cursor.level .primary).after.advance →
        Agrees (Guarded.level depth .factor) next (next.cursor.level .factor)) :
    Agrees (Guarded.level (depth + 1) .power) r (r.cursor.level .power) := by
  rw [Guarded.levelPower,Cursor.levelPower]
  refine first.bind (fun base next _ behind => ?_)
  by_cases sign : next.cursor.kind = .symbol .starStar
  · rw [if_pos sign]
    refine operated sign (List.mem_singleton_self _) (fun last same => ?_)
    rw [← same]
    exact (go (behind ▸ sign) last (by rw [same,behind])).map (Tree.binary Symbol.starStar.spelling base)
  · rw [if_neg sign]
    exact unoperated (by simpa using sign) (fun last same => same ▸ pure base)

def atCall (c : Cursor) : Bool := c.kind = .name && c.advance.kind = .symbol .openParen

theorem callAhead {f : Bool → Guarded Tree} (go : Agrees (f (atCall r.cursor)) r reply) :
    Agrees (Guarded.atCall >>= f) r reply := by
  intro inside
  obtain ⟨next,run,rest⟩ := go inside
  refine ⟨next,?_,rest⟩
  have ahead : (r.cursor.kind = .name && r.tokens[r.position + 1]?.any (·.kind = .symbol .openParen)) =
      atCall r.cursor := by
    by_cases name : r.cursor.kind = .name
    · have more : r.cursor.kind ≠ .finish := by simp [name]
      have moved : Reader.Inside {r with position := r.position + 1} := ⟨inside.more more,inside.ended⟩
      rw [moved.token,Reader.cursorAdvance inside more]
      rfl
    · simp [atCall,name]
  have called : Guarded.atCall r = some (.ok (atCall r.cursor),r) := by
    rw [Guarded.atCall,Guarded.bindRun,Guarded.peekRun inside,← ahead]
    rfl
  rw [Guarded.bindRun,called]
  exact run

theorem call (name : r.cursor.kind = .name) (opens : r.cursor.advance.kind = .symbol .openParen)
    (inner : ∀ next : Reader, next.cursor = r.cursor.advance.advance →
      Agrees (Guarded.arguments depth) next next.cursor.arguments) :
    Agrees (Guarded.call (depth + 1)) r r.cursor.primary := by
  rw [Guarded.call,Cursor.primary,name]
  refine expected name (by simp) (fun second same => ?_)
  refine expected (same ▸ opens) (by simp) (fun third same' => ?_)
  rw [same] at same'
  simp only [if_pos opens,← same']
  refine (inner third same').bind (fun ts last _ _ => ?_)
  exact (expect (by simp)).map (fun _ => Tree.call r.cursor.payload ts)

theorem leaf {t : Tree} (more : r.cursor.kind ≠ .finish) (read : r.cursor.primary = ⟨.ok t,r.cursor.advance⟩) :
    Agrees (Guarded.advance >>= fun _ => Pure.pure t) r r.cursor.primary := by
  rw [read]
  exact (advance more).map (fun _ => t)

theorem expressionStep (inner : Agrees (Guarded.level depth .disjunction) r (r.cursor.level .disjunction)) :
    Agrees (Guarded.expression (depth + 1)) r r.cursor.expression := by
  rw [Guarded.expression]
  exact inner.map Tree.expression

theorem nested (kind : r.cursor.kind = .symbol .openParen)
    (inner : ∀ next : Reader, next.cursor = r.cursor.advance →
      Agrees (Guarded.expression depth) next next.cursor.expression) :
    Agrees (Guarded.advance >>= fun _ => do
      let inner ← Guarded.expression depth
      let _ ← Guarded.expect (.symbol .closeParen)
      return inner) r r.cursor.primary := by
  have read : r.cursor.primary = r.cursor.advance.expression.andThen (fun inner d =>
      (d.expect (.symbol .closeParen)).map (fun _ => inner)) := by
    rw [Cursor.primary,kind]
  rw [read]
  refine (advance (by simp [kind])).step (fun next same => ?_)
  rw [← same]
  refine (inner next same).bind (fun t last _ _ => ?_)
  exact (expect (by simp)).map (fun _ => t)

theorem atom (plain : atCall r.cursor = false)
    (inner : r.cursor.kind = .symbol .openParen → ∀ next : Reader, next.cursor = r.cursor.advance →
      Agrees (Guarded.expression depth) next next.cursor.expression) :
    Agrees (Guarded.atom (depth + 1)) r r.cursor.primary := by
  rw [Guarded.atom]
  refine peeked ?_
  split <;> rename_i kind
  · exact leaf (by simp [Cursor.kind,kind]) (by simp [Cursor.primary,Cursor.kind,kind,Cursor.payload])
  · exact leaf (by simp [Cursor.kind,kind]) (by simp [Cursor.primary,Cursor.kind,kind,Cursor.payload])
  · have name : r.cursor.kind = .name := kind
    have open' : r.cursor.advance.kind ≠ .symbol .openParen := by simpa [atCall,name] using plain
    exact leaf (by simp [name]) (by simp [Cursor.primary,name,open',Cursor.payload])
  · exact leaf (by simp [Cursor.kind,kind]) (by simp [Cursor.primary,Cursor.kind,kind])
  · exact leaf (by simp [Cursor.kind,kind]) (by simp [Cursor.primary,Cursor.kind,kind])
  · exact nested kind (inner kind)
  · have refused : r.cursor.primary = ⟨.error (.noAlternative .expression r.cursor.current),r.cursor⟩ := by
      unfold Cursor.primary
      split <;> simp_all [Cursor.kind]
    rw [refused]
    exact throw _

theorem primary (call : r.cursor.kind = .name → r.cursor.advance.kind = .symbol .openParen →
      ∀ next : Reader, next.cursor = r.cursor.advance.advance →
        Agrees (Guarded.arguments depth) next next.cursor.arguments)
    (inner : r.cursor.kind = .symbol .openParen → ∀ next : Reader, next.cursor = r.cursor.advance →
      Agrees (Guarded.expression depth) next next.cursor.expression) :
    Agrees (Guarded.level (depth + 2) .primary) r (r.cursor.level .primary) := by
  rw [Guarded.levelPrimary,Cursor.levelPrimary]
  refine callAhead ?_
  cases called : atCall r.cursor with
  | true =>
    obtain ⟨name,opens⟩ : r.cursor.kind = .name ∧ r.cursor.advance.kind = .symbol .openParen := by
      simpa [atCall] using called
    exact Agrees.call name opens (call name opens)
  | false => exact atom called inner

theorem argumentListStep (first : Agrees (Guarded.expression depth) r r.cursor.expression)
    (go : r.cursor.expression.after.kind = .symbol .comma →
      ∀ next : Reader, next.cursor = r.cursor.expression.after.advance →
        Agrees (Guarded.argumentList depth) next next.cursor.argumentList) :
    Agrees (Guarded.argumentList (depth + 1)) r r.cursor.argumentList := by
  rw [Guarded.argumentList,Cursor.argumentListStep]
  refine first.bind (fun t next _ behind => ?_)
  by_cases comma : next.cursor.kind = .symbol .comma
  · rw [if_pos comma]
    refine accepted (by simp) (by simp [comma]) (fun last same => ?_)
    rw [← same]
    exact (go (behind ▸ comma) last (by rw [same,behind])).map (t :: ·)
  · rw [if_neg comma]
    exact declined (by simp) (by simpa using comma) (fun last same => same ▸ pure [t])

theorem argumentsStep (list : r.cursor.kind ≠ .symbol .closeParen →
      Agrees (Guarded.argumentList depth) r r.cursor.argumentList) :
    Agrees (Guarded.arguments (depth + 1)) r r.cursor.arguments := by
  rw [Guarded.arguments,Cursor.argumentsStep]
  refine peeked ?_
  change Agrees (if r.cursor.kind = .symbol .closeParen then _ else _) r _
  by_cases closes : r.cursor.kind = .symbol .closeParen
  · rw [if_pos closes,if_pos closes]
    exact pure []
  · rw [if_neg closes,if_neg closes]
    exact list closes

-- Without reading a token calls nest at most from `arguments` through all the levels to `atom`.
mutual
theorem level (depth : Nat) (l : Level) (r : Reader) (deep : r.cursor.left * 16 + (10 - l.rank) < depth) :
    Agrees (Guarded.level depth l) r (r.cursor.level l) := by
  obtain ⟨depth,rfl⟩ := Nat.exists_eq_add_one.mpr (Nat.zero_lt_of_lt deep)
  have bound := l.rankBound
  match form : l.form with
  | .chain operators operand =>
    have tighter := Level.rankChain form
    refine levelChain form (level depth operand r (by omega)) (fun t next behind => ?_)
    have never := (Cursor.levelConsumes operand r.cursor).1
    have here := congrArg Cursor.left behind
    exact chain depth operators operand t next (by omega)
  | .sign operator operand =>
    have tighter := Level.rankSign form
    by_cases sign : r.cursor.kind = .symbol operator
    · refine levelSigned form sign (fun next same => ?_)
      have shorter := Cursor.Consuming.symbolLeft sign
      have here := congrArg Cursor.left same
      exact level depth l next (by omega)
    · refine levelUnsigned form sign (fun next same => ?_)
      have here := congrArg Cursor.left same
      exact level depth operand next (by omega)
  | .power =>
    have tighter := Level.rankPower form
    rw [Level.formPower form]
    refine levelPower (level depth .primary r (by omega)) (fun sign next same => ?_)
    have never := (Cursor.levelConsumes .primary r.cursor).1
    have shorter := Cursor.Consuming.symbolLeft sign
    have here := congrArg Cursor.left same
    exact level depth .factor next (by omega)
  | .primary =>
    obtain ⟨depth,rfl⟩ : ∃ fewer, depth = fewer + 1 := Nat.exists_eq_add_one.mpr (by omega)
    rw [Level.formPrimary form]
    refine primary (fun name opens next same => ?_) (fun opens next same => ?_)
    · have shorter := Cursor.Consuming.symbolLeft opens
      have never := Cursor.advanceNever r.cursor
      have here := congrArg Cursor.left same
      exact arguments depth next (by omega)
    · have shorter := Cursor.Consuming.symbolLeft opens
      have here := congrArg Cursor.left same
      exact expression depth next (by omega)
termination_by depth
theorem chain (depth : Nat) (operators : List Symbol) (operand : Level) (left : Tree) (r : Reader)
    (deep : r.cursor.left * 16 < depth) :
    Agrees (Guarded.chain depth operators operand left) r (r.cursor.chain operators operand left) := by
  obtain ⟨depth,rfl⟩ := Nat.exists_eq_add_one.mpr (Nat.zero_lt_of_lt deep)
  by_cases goes : ∃ s ∈ operators, r.cursor.kind = .symbol s
  · obtain ⟨s,member,kind⟩ := goes
    have bound := operand.rankBound
    have shorter := Cursor.Consuming.symbolLeft kind
    refine chainStep member kind (fun next same => ?_) (fun t next behind => ?_)
    · have here := congrArg Cursor.left same
      exact level depth operand next (by omega)
    · have never := (Cursor.levelConsumes operand r.cursor.advance).1
      have here := congrArg Cursor.left behind
      exact chain depth operators operand t next (by omega)
  · exact chainStop (fun s member kind => goes ⟨s,member,kind⟩)
termination_by depth
theorem expression (depth : Nat) (r : Reader) (deep : r.cursor.left * 16 + 11 < depth) :
    Agrees (Guarded.expression depth) r r.cursor.expression := by
  obtain ⟨depth,rfl⟩ := Nat.exists_eq_add_one.mpr (Nat.zero_lt_of_lt deep)
  exact expressionStep (level depth .disjunction r (by omega))
termination_by depth
theorem argumentList (depth : Nat) (r : Reader) (deep : r.cursor.left * 16 + 12 < depth) :
    Agrees (Guarded.argumentList depth) r r.cursor.argumentList := by
  obtain ⟨depth,rfl⟩ := Nat.exists_eq_add_one.mpr (Nat.zero_lt_of_lt deep)
  refine argumentListStep (expression depth r (by omega)) (fun comma next same => ?_)
  have never := (Cursor.expressionConsumes r.cursor).1
  have shorter := Cursor.Consuming.symbolLeft comma
  have here := congrArg Cursor.left same
  exact argumentList depth next (by omega)
termination_by depth
theorem arguments (depth : Nat) (r : Reader) (deep : r.cursor.left * 16 + 13 < depth) :
    Agrees (Guarded.arguments depth) r r.cursor.arguments := by
  obtain ⟨depth,rfl⟩ := Nat.exists_eq_add_one.mpr (Nat.zero_lt_of_lt deep)
  exact argumentsStep (fun _ => argumentList depth r (by omega))
termination_by depth
end

end Agrees
end JutsuSyntax
