import JutsuSyntax.Proofs.Statement.Law
import Mathlib.Data.List.TakeWhile

/-! Maps of the tokens ahead that reading statements does not see. Of two alternatives the further
one is told by counting what is left, so such a map has to take as many tokens from both. -/
namespace JutsuSyntax.Cursor

section
variable {f : Cursor → Cursor} {c a b : Cursor} {context : Context}

def Even (f : Cursor → Cursor) (c d : Cursor) : Prop := (f c).left + d.left = c.left + (f d).left

theorem Even.further (one : Even f c a) (two : Even f c b) :
    further (f a) (f b) = f (further a b) ∧ Even f c (further a b) := by
  unfold Even Cursor.further at *
  by_cases shorter : b.left < a.left
  · rw [if_pos shorter,if_pos (by omega)]
    exact ⟨rfl,two⟩
  · rw [if_neg shorter,if_neg (by omega)]
    exact ⟨rfl,one⟩

theorem KeepsFront.completes (front : KeepsFront f) (bodies : ∀ c, (f c).bodies = c.bodies) (r : Parsed Tree) :
    completes ⟨r.result,f r.after⟩ = completes r := by
  have boundary : (f r.after).atBoundary = r.after.atBoundary := by
    rw [atBoundary,atBoundary,front.kind,bodies]
  rw [Cursor.completes,Cursor.completes,boundary]

theorem KeepsFront.firstMatch (front : KeepsFront f) (bodies : ∀ c, (f c).bodies = c.bodies)
    {alternatives : List Production}
    (each : ∀ alternative ∈ alternatives, Commutes f Tree alternative c ∧ Even f c (alternative c).after) :
    Commutes f Tree (firstMatch context alternatives) c := by
  suffices all : ∀ furthest, Even f c furthest →
      firstMatchFrom context (f c) (f furthest) alternatives =
        ⟨(firstMatchFrom context c furthest alternatives).result,
          f (firstMatchFrom context c furthest alternatives).after⟩ from
    all c (Nat.add_comm _ _)
  induction alternatives with
  | nil =>
    intro furthest _
    rw [firstMatchFrom,firstMatchFrom,front.current]
  | cons alternative others ih =>
    intro furthest even
    obtain ⟨⟨commutes,reached⟩,each⟩ := List.forall_mem_cons.mp each
    obtain ⟨same,further⟩ := even.further reached
    rw [Commutes] at commutes
    simp only [firstMatchFrom,commutes,front.completes bodies,same]
    split
    · rfl
    · exact ih each _ further

end

section
variable {c : Cursor}

theorem parameterPlain {token : Token} (parameter : isParameterToken token) : token.kind ≠ .newline := by
  intro kind
  simp [isParameterToken,kind] at parameter

theorem parametersMore (more : isParameterToken c.current) :
    c.parameterRun = c.current :: c.advance.parameterRun ∧ c.pastParameters = c.advance.pastParameters := by
  obtain ⟨ahead,bodies⟩ := c
  cases ahead with
  | nil => contradiction
  | cons token tokens =>
    have more : isParameterToken token := more
    have word : token.kind ≠ .finish := by
      intro kind
      simp [isParameterToken,kind] at more
    have passed : (⟨token :: tokens,bodies⟩ : Cursor).advance = ⟨tokens,bodies⟩ := if_neg word
    rw [passed,parameterRun,pastParameters,List.takeWhile_cons_of_pos more,List.dropWhile_cons_of_pos more]
    exact ⟨rfl,rfl⟩

theorem parametersEnd (ended : isParameterToken c.current = false) :
    c.parameterRun = [] ∧ c.pastParameters = c := by
  obtain ⟨ahead,bodies⟩ := c
  cases ahead with
  | nil => exact ⟨rfl,rfl⟩
  | cons token tokens =>
    have ended : isParameterToken token = false := ended
    rw [parameterRun,pastParameters,List.takeWhile_cons_of_neg (by simp [ended]),
      List.dropWhile_cons_of_neg (by simp [ended])]
    exact ⟨rfl,rfl⟩

theorem KeepsFront.parameterRun {f : Cursor → Cursor} (front : KeepsFront f) (c : Cursor) :
    (f c).parameterRun = c.parameterRun ∧ (f c).pastParameters = f c.pastParameters := by
  cases parameter : isParameterToken c.current with
  | true =>
    have plain : c.kind ≠ .newline := parameterPlain parameter
    have shorter := advanceShortens (c := c) (fun kind => by simp_all [isParameterToken,Cursor.kind])
    obtain ⟨run,past⟩ := parametersMore parameter
    obtain ⟨run',past'⟩ := parametersMore (c := f c) (by rwa [front.current])
    obtain ⟨same,same'⟩ := front.parameterRun c.advance
    rw [run,past,run',past',front.advance plain,front.current,same,same']
    exact ⟨rfl,rfl⟩
  | false =>
    obtain ⟨run,past⟩ := parametersEnd parameter
    obtain ⟨run',past'⟩ := parametersEnd (c := f c) (by rwa [front.current])
    rw [run,past,run',past']
    exact ⟨rfl,rfl⟩
termination_by c.left

theorem KeepsFront.parameters {f : Cursor → Cursor} (front : KeepsFront f) (function : String) (c : Cursor) :
    Commutes f (List String) (Cursor.parameters function) c := by
  obtain ⟨run,past⟩ := front.parameterRun c
  rw [Commutes,Cursor.parameters,Cursor.parameters,run,past,front.current]
  split <;> rfl

end

def onAhead (g : List Token → List Token) (c : Cursor) : Cursor := {c with ahead := g c.ahead}

theorem KeepsFront.statements {g : List Token → List Token} (front : KeepsFront (onAhead g))
    {reach : Cursor → Cursor → Prop} (reached : Law (fun _ p c => reach c (p c).after))
    (even : ∀ {c d}, reach c d → Even (onAhead g) c d)
    (skip : ∀ {α c} {p : Cursor → Parsed α}, c.kind = .newline →
      (∀ d : Cursor, d.kind = .newline → p d = p d.advance) → Commutes (onAhead g) α p c.advance →
      Commutes (onAhead g) α p c) : StatementLaw (Commutes (onAhead g)) where
  toLaw := front.commutes
  parameters := front.parameters
  unled {c} _ _ := front.firstMatch (fun _ => rfl) (List.forall_mem_cons.mpr
    ⟨⟨front.commutes.assignment c,even (reached.assignment c)⟩,
      List.forall_mem_singleton.mpr ⟨front.commutes.expression c,even (reached.expression c)⟩⟩)
  inBody {_ c p} h := by
    change leaveBody (p (onAhead g c.enterBody)) = _
    rw [h]
    rfl
  skip := skip

end JutsuSyntax.Cursor
