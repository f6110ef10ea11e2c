import JutsuSyntax.Proofs.Cursor.Outcome

/-! Reading a token list by index. Every access and every move is checked: an index has to lie in
the list, and a move must not lead past the first end of input. Where a check fails there is no
answer. `Agrees` says that there is one, and that it is the answer of a cursor. -/
namespace JutsuSyntax

structure Reader where
  tokens : List Token
  position : Nat
  bodies : Nat

namespace Reader

def ofTokens (tokens : List Token) : Reader := ⟨Cursor.complete tokens,0,0⟩

def limit (r : Reader) : Nat := r.tokens.findIdx (·.kind = .finish)

def cursor (r : Reader) : Cursor := ⟨r.tokens.drop r.position,r.bodies⟩

structure Inside (r : Reader) : Prop where
  before : r.position ≤ r.limit
  ended : r.limit < r.tokens.length

end Reader

abbrev Guarded (α : Type) := ExceptT ParseError (StateT Reader Option) α

namespace Guarded
variable {α β : Type}

def violated : Guarded α := fun _ => none

def token (index : Nat) : Guarded Token := do
  match (← get).tokens[index]? with
  | some token => return token
  | none => violated

def moveTo (position : Nat) : Guarded Unit := do
  let r ← get
  if position ≤ r.limit then set {r with position := position} else violated

def peek : Guarded Token := do token (← get).position

def peekAhead (n : Nat) : Guarded (Option Token) := do
  let r ← get
  return r.tokens[r.position + n]?

def previous : Guarded Token := do token ((← get).position - 1)

def advance : Guarded Token := do
  if (← peek).kind = .finish then previous
  else do
    moveTo ((← get).position + 1)
    previous

def accept (kinds : List Token.Kind) : Guarded (Option Token.Kind) := do
  let kind := (← peek).kind
  if kind ∈ kinds then do
    let _ ← advance
    return some kind
  else return none

def expect (kind : Token.Kind) : Guarded Token := do
  let token ← peek
  if token.kind = kind then advance else throw (.unexpected kind token)

def attempt (g : Guarded α) : Guarded (Except ParseError α) := fun r => do
  let (result,next) ← g r
  return (.ok result,next)

def session (g : Guarded α) : Nat → Reader → Option (List (Except ParseError α))
  | 0, _ => some []
  | calls + 1, r => do
    let (result,next) ← g r
    return result :: (← session g calls next)

end Guarded

variable {α β : Type} {r : Reader} {reply : Parsed α}

namespace Reader

theorem limitKind (within : r.limit < r.tokens.length) : r.tokens[r.limit].kind = .finish := by
  have found := List.findIdx_getElem (p := fun token : Token => decide (token.kind = .finish)) (w := within)
  exact of_decide_eq_true found

theorem Inside.token (inside : r.Inside) : r.tokens[r.position]? = some r.cursor.current := by
  have bound : r.position < r.tokens.length := Nat.lt_of_le_of_lt inside.before inside.ended
  rw [cursor,Cursor.current,List.drop_eq_getElem_cons bound,List.getElem?_eq_getElem bound]
  rfl

theorem Inside.more (inside : r.Inside) (more : r.cursor.kind ≠ .finish) : r.position + 1 ≤ r.limit := by
  have bound : r.position < r.tokens.length := Nat.lt_of_le_of_lt inside.before inside.ended
  rcases Nat.lt_or_eq_of_le inside.before with before | last
  · exact before
  · refine absurd ?_ more
    have found := inside.token
    rw [Cursor.kind]
    simp only [last] at found
    rw [List.getElem?_eq_getElem inside.ended] at found
    rw [← Option.some.inj found]
    exact limitKind inside.ended

theorem cursorAdvance (inside : r.Inside) (more : r.cursor.kind ≠ .finish) :
    ({r with position := r.position + 1} : Reader).cursor = r.cursor.advance := by
  have bound : r.position < r.tokens.length := Nat.lt_of_le_of_lt inside.before inside.ended
  rw [Cursor.advance,if_neg more]
  simp [cursor]

end Reader

namespace Guarded

theorem bindRun (g : Guarded α) (f : α → Guarded β) (r : Reader) : (g >>= f) r =
    (g r).bind (fun (result,next) => match result with
      | .ok a => f a next
      | .error e => some (.error e,next)) := by
  change (g r).bind _ = _
  cases g r with
  | none => rfl
  | some pair =>
    obtain ⟨result,next⟩ := pair
    cases result <;> rfl

theorem getRun (r : Reader) : (get : Guarded Reader) r = some (.ok r,r) := rfl

theorem tokenRun {index : Nat} {found : Token} (there : r.tokens[index]? = some found) :
    token index r = some (.ok found,r) := by
  rw [token,bindRun,getRun]
  simp only [Option.bind_some,there]
  rfl

theorem peekRun (inside : r.Inside) : peek r = some (.ok r.cursor.current,r) := tokenRun inside.token

theorem moveRun {position : Nat} (before : position ≤ r.limit) :
    moveTo position r = some (.ok (),{r with position := position}) := by
  change (if position ≤ r.limit then (set {r with position := position} : Guarded Unit) else violated) r = _
  rw [if_pos before]
  rfl

theorem advanceRun (inside : r.Inside) (more : r.cursor.kind ≠ .finish) :
    advance r = some (.ok r.cursor.current,{r with position := r.position + 1}) := by
  have last : previous {r with position := r.position + 1} = _ := tokenRun inside.token
  rw [advance,bindRun,peekRun inside]
  change (if r.cursor.kind = .finish then previous else _) r = _
  rw [if_neg more]
  change ((moveTo (r.position + 1)) >>= fun _ => previous) r = _
  rw [bindRun,moveRun (inside.more more)]
  exact last

end Guarded
def Agrees (g : Guarded α) (r : Reader) (reply : Parsed α) : Prop :=
  r.Inside → ∃ next : Reader, g r = some (reply.result,next) ∧ next.cursor = reply.after ∧
    next.tokens = r.tokens ∧ next.Inside

namespace Agrees
variable {g : Guarded α}

theorem pure (a : α) : Agrees (Pure.pure a) r ⟨.ok a,r.cursor⟩ :=
  fun inside => ⟨r,rfl,rfl,rfl,inside⟩

theorem throw (e : ParseError) : Agrees (MonadExcept.throw e : Guarded α) r ⟨.error e,r.cursor⟩ :=
  fun inside => ⟨r,rfl,rfl,rfl,inside⟩

theorem bind {f : α → Guarded β} {q : α → Cursor → Parsed β} (first : Agrees g r reply)
    (go : ∀ a next, reply.result = .ok a → Reader.cursor next = reply.after →
      Agrees (f a) next (q a next.cursor)) : Agrees (g >>= f) r (reply.andThen q) := by
  intro inside
  obtain ⟨next,run,cursor,tokens,behind⟩ := first inside
  obtain ⟨result,after⟩ := reply
  cases cursor
  cases result with
  | error e =>
    refine ⟨next,?_,rfl,tokens,behind⟩
    rw [Guarded.bindRun,run]
    rfl
  | ok a =>
    obtain ⟨last,run',cursor',tokens',behind'⟩ := go a next rfl rfl behind
    refine ⟨last,?_,cursor',tokens'.trans tokens,behind'⟩
    rw [Guarded.bindRun,run]
    exact run'

theorem map (first : Agrees g r reply) (h : α → β) :
    Agrees (g >>= fun a => Pure.pure (h a)) r (reply.map h) := by
  have steps : reply.map h = reply.andThen (fun a d => ⟨.ok (h a),d⟩) := by
    obtain ⟨result,after⟩ := reply
    cases result <;> rfl
  rw [steps]
  exact first.bind (fun a next _ _ => pure (h a))

theorem step {f : α → Guarded β} {a : α} {d : Cursor} {reply : Parsed β} (first : Agrees g r ⟨.ok a,d⟩)
    (go : ∀ next : Reader, next.cursor = d → Agrees (f a) next reply) : Agrees (g >>= f) r reply := by
  refine first.bind (q := fun _ _ => reply) (fun b next ok same => ?_)
  cases ok
  exact go next same

theorem peeked {f : Token → Guarded α} (go : Agrees (f r.cursor.current) r reply) :
    Agrees (Guarded.peek >>= f) r reply := by
  intro inside
  obtain ⟨next,run,rest⟩ := go inside
  refine ⟨next,?_,rest⟩
  rw [Guarded.bindRun,Guarded.peekRun inside]
  exact run

theorem advance (more : r.cursor.kind ≠ .finish) :
    Agrees Guarded.advance r ⟨.ok r.cursor.current,r.cursor.advance⟩ :=
  fun inside => ⟨_,Guarded.advanceRun inside more,Reader.cursorAdvance inside more,rfl,
    inside.more more,inside.ended⟩

theorem expect {kind : Token.Kind} (word : kind ≠ .finish) :
    Agrees (Guarded.expect kind) r (r.cursor.expect kind) := by
  refine peeked ?_
  change Agrees (if r.cursor.kind = kind then Guarded.advance else MonadExcept.throw _) r _
  rw [Cursor.expect]
  by_cases same : r.cursor.kind = kind
  · rw [if_pos same,if_pos same]
    exact advance (same ▸ word)
  · rw [if_neg same,if_neg same]
    exact throw _

theorem expectThen {f : Token → Guarded α} {q : Token → Cursor → Parsed α} {kind : Token.Kind}
    (word : kind ≠ .finish) (go : ∀ token (next : Reader), next.cursor.left < r.cursor.left →
      Agrees (f token) next (q token next.cursor)) :
    Agrees (Guarded.expect kind >>= f) r ((r.cursor.expect kind).andThen q) := by
  refine (expect word).bind (fun token next given same => go token next ?_)
  have shorter := (Cursor.expectConsumes word r.cursor).2 token given
  rw [same]
  omega

theorem expected {f : Token → Guarded α} {kind : Token.Kind} (same : r.cursor.kind = kind)
    (word : kind ≠ .finish)
    (go : ∀ next : Reader, next.cursor = r.cursor.advance → Agrees (f r.cursor.current) next reply) :
    Agrees (Guarded.expect kind >>= f) r reply := by
  have first := @expect r kind word
  rw [Cursor.expect,if_pos same] at first
  exact first.step go

theorem accept {kinds : List Token.Kind} (words : .finish ∉ kinds) : Agrees (Guarded.accept kinds) r
    (if r.cursor.kind ∈ kinds then ⟨.ok (some r.cursor.kind),r.cursor.advance⟩
      else ⟨.ok none,r.cursor⟩) := by
  refine peeked ?_
  change Agrees (if r.cursor.kind ∈ kinds then _ else _) r _
  by_cases taken : r.cursor.kind ∈ kinds
  · rw [if_pos taken,if_pos taken]
    have more : r.cursor.kind ≠ .finish := fun ended => words (ended ▸ taken)
    exact (advance more).step (fun next same => same ▸ pure _)
  · rw [if_neg taken,if_neg taken]
    exact pure none

variable {f : Option Token.Kind → Guarded α} {kinds : List Token.Kind}

theorem accepted (words : .finish ∉ kinds) (taken : r.cursor.kind ∈ kinds)
    (go : ∀ next : Reader, next.cursor = r.cursor.advance → Agrees (f (some r.cursor.kind)) next reply) :
    Agrees (Guarded.accept kinds >>= f) r reply := by
  have first := @accept r kinds words
  rw [if_pos taken] at first
  exact first.step go

theorem declined (words : .finish ∉ kinds) (other : r.cursor.kind ∉ kinds)
    (go : ∀ next : Reader, next.cursor = r.cursor → Agrees (f none) next reply) :
    Agrees (Guarded.accept kinds >>= f) r reply := by
  have first := @accept r kinds words
  rw [if_neg other] at first
  exact first.step go

end Agrees
end JutsuSyntax
