import JutsuSyntax.Proofs.Statement.Law
import JutsuSyntax.Proofs.Statement.Commuting

/-! Errors that come up again. A statement that nothing can be made of is refused with the same
error by a reader that starts at it, also where the first one was inside bodies. -/
namespace JutsuSyntax.Cursor
variable {c furthest : Cursor} {context : Context} {e : ParseError} {found : Token}

def counting (c : Cursor) (bodies : Nat) : Cursor := {c with bodies := bodies}

@[simp] theorem countingKind (n : Nat) : (c.counting n).kind = c.kind := rfl

@[simp] theorem countingAdvance (n : Nat) : (c.counting n).advance = c.advance.counting n := by
  by_cases ended : c.kind = .finish
  · rw [advance,advance,if_pos ended,if_pos (by rwa [countingKind])]
  · rw [advance,advance,if_neg ended,if_neg (by rwa [countingKind])]
    rfl

theorem countingFront (n : Nat) : KeepsFront (counting · n) := ⟨fun _ => rfl,fun _ => countingAdvance n⟩

theorem boundaryOutside (h : (c.counting 0).atBoundary) : c.atBoundary := by
  rw [atBoundary,countingKind] at h
  rw [atBoundary]
  split at h
  · rfl
  · rfl
  · simp [counting] at h

theorem completesOutside {r : Parsed Tree} (h : completes ⟨r.result,r.after.counting 0⟩) : completes r := by
  obtain ⟨result,after⟩ := r
  cases result with
  | error e => contradiction
  | ok t => exact boundaryOutside h

theorem furtherCounting (a b : Cursor) (n : Nat) :
    further (a.counting n) (b.counting n) = (further a b).counting n := by
  change (if b.left < a.left then b.counting n else a.counting n) = _
  rw [further]
  split <;> rfl

theorem firstMatchOutside {alternatives : List Production}
    (each : ∀ alternative ∈ alternatives, Commutes (counting · 0) Tree alternative c)
    (failed : (firstMatchFrom context c furthest alternatives).result = .error e) :
    firstMatchFrom context (c.counting 0) (furthest.counting 0) alternatives = ⟨.error e,c.counting 0⟩ := by
  induction alternatives generalizing furthest with
  | nil => exact congrArg (Reply.mk · (c.counting 0)) failed
  | cons alternative others ih =>
    obtain ⟨first,each⟩ := List.forall_mem_cons.mp each
    simp only [firstMatchFrom] at failed ⊢
    by_cases done : completes (alternative c)
    · obtain ⟨t,given⟩ := completesOk done
      rw [if_pos done,given] at failed
      contradiction
    have undone : ¬ completes (alternative (c.counting 0)) := by
      rw [first]
      exact fun outside => done (completesOutside outside)
    rw [if_neg done] at failed
    rw [if_neg undone,first,furtherCounting]
    exact ih each failed

def Stuck (found : Token) (c : Cursor) : Prop :=
  (c.counting 0).statements = ⟨.error (.noAlternative .statement found),c.counting 0⟩

theorem unledStuck (filled : c.atBlank = false)
    (keyless : ∀ d : Cursor, d.kind = c.kind → d.sentence = d.unled)
    (failed : c.unled.result = .error (.noAlternative .statement found)) : Stuck found c.unled.after := by
  have blind := (countingFront 0).commutes
  have each : ∀ alternative ∈ [assignment,expression], Commutes (counting · 0) Tree alternative c :=
    List.forall_mem_cons.mpr ⟨blind.assignment c,List.forall_mem_singleton.mpr (blind.expression c)⟩
  have stays : c.unled.after = c := firstMatchKeeps c failed
  have refused : (c.counting 0).sentence = ⟨.error (.noAlternative .statement found),c.counting 0⟩ :=
    (keyless (c.counting 0) rfl).trans (firstMatchOutside each failed)
  have more : (c.counting 0).kind ≠ .finish := by
    intro ended
    rw [atBlank,← countingKind 0,ended] at filled
    contradiction
  rw [Stuck,stays,statementsStep,if_neg more,statement,if_neg (by simpa [atBlank] using filled),refused]
  rfl

theorem stuckLaw : StatementLaw (fun _ p c =>
    ∀ found, (p c).result = .error (.noAlternative .statement found) → Stuck found (p c).after) where
  stay _ := nofun
  refuse other found failed := absurd (Except.error.inj failed) (other _ found)
  expect {c kind} _ _ found failed := by
    rw [expect] at failed
    split at failed <;> simp at failed
  congr {_ c} _ _ h agree := by rwa [agree c rfl rfl]
  pass {_ c} _ _ _ _ h step := by rwa [step c rfl rfl]
  map {_ _ c p} h f found failed := by
    refine h found ?_
    cases result : (p c).result with
    | error e => simpa [Reply.map,Except.map,result] using failed
    | ok value => simp [Reply.map,Except.map,result] at failed
  andThen {_ _ c p} next h go := by
    cases result : (p c).result with
    | error e => simpa [Reply.andThen,result] using h
    | ok value => simpa [Reply.andThen,result] using go value result
  parameters function c found failed := by
    rw [parameters] at failed
    split at failed <;> simp at failed
  unled filled keyless _ failed := unledStuck filled keyless failed
  inBody h := h
  skip {_ c _} newline skips h := by rwa [skips c newline]

theorem statementsStuck (c : Cursor) (failed : c.statements.result = .error (.noAlternative .statement found)) :
    Stuck found c.statements.after := stuckLaw.statements c found failed

end JutsuSyntax.Cursor
