import JutsuSyntax.Proofs.Expression.Acceptance
import JutsuSyntax.Proofs.Statement.Onward

/-! The order of alternatives. Of two that never both complete either may be tried first: the one that
completes is taken, and if none does, the furthest token that they reached is the same. -/
namespace JutsuSyntax.Cursor
open Grammar

variable {context : Context} {c d e : Cursor} {a b : Production}

theorem Onward.further (onward : Onward c d) : further c d = d := by
  unfold Cursor.further
  split
  · rfl
  · rename_i short
    exact (Onward.refl c).same onward (Nat.le_antisymm (Nat.le_of_not_lt short) onward.never)

theorem furtherSwaps (first : Onward c d) (second : Onward c e) : further d e = further e d := by
  unfold further
  rcases Nat.lt_trichotomy d.left e.left with less | same | more
  · rw [if_neg (Nat.lt_asymm less),if_pos less]
  · rw [first.same second same]
  · rw [if_pos more,if_neg (Nat.lt_asymm more)]

theorem firstMatchSwaps (apart : ¬ (completes (a c) ∧ completes (b c)))
    (first : Onward c (a c).after) (second : Onward c (b c).after) :
    firstMatch context [a,b] c = firstMatch context [b,a] c := by
  cases left : completes (a c) with
  | true =>
    have right : completes (b c) = false := by simpa [left] using apart
    rw [firstCompletes left,secondCompletes right left]
  | false =>
    cases right : completes (b c) with
    | true => rw [secondCompletes left right,firstCompletes right]
    | false =>
      have both : further (further c (a c).after) (b c).after =
          further (further c (b c).after) (a c).after := by
        rw [first.further,second.further]
        exact furtherSwaps first second
      simp [firstMatch,firstMatchFrom,left,right,both]

theorem expressionExcludes (taken : completes c.expression) : completes c.assignment = false := by
  obtain ⟨u,given⟩ := completesOk taken
  have boundary : c.expression.after.atBoundary := by
    rwa [completes,given] at taken
  generalize same : c.expression = reply at given boundary
  obtain ⟨result,d⟩ := reply
  cases given
  obtain ⟨t,read,_⟩ := expressionLevel same
  obtain ⟨bodies,passed,ahead,operand,_⟩ := levelPasses.mp read
  -- Even if the expression is only a name, no sign of an assignment stands behind it.
  rw [backOf bodies ahead]
  exact assignmentRefuses operand boundary

theorem alternativesExclude (context : Context) (c : Cursor) :
    ¬ (completes c.assignment ∧ completes c.expression) ∧
    firstMatch context [assignment,expression] c = firstMatch context [expression,assignment] c ∧
    (firstMatch context [assignment,expression] c).after.bodies = c.bodies ∧
    ∀ e, (firstMatch context [assignment,expression] c).result = .error e →
      (firstMatch context [assignment,expression] c).after = c := by
  have apart : ¬ (completes c.assignment ∧ completes c.expression) := by
    rintro ⟨named,plain⟩
    rw [expressionExcludes plain] at named
    contradiction
  have first := onwardLaw.assignment c
  have second := onwardLaw.expression c
  have onward : Onward c (firstMatch context [assignment,expression] c).after :=
    onwardFirstMatch (List.forall_mem_cons.mpr ⟨first,List.forall_mem_singleton.mpr second⟩)
  exact ⟨apart,firstMatchSwaps apart first second,onward.bodies,fun _ => firstMatchKeeps c⟩

end JutsuSyntax.Cursor
