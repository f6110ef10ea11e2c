import JutsuSyntax.Proofs.Cursor.Outcome
import JutsuSyntax.Proofs.Statement.Law
import Mathlib.Data.List.TakeWhile

/-! Whatever a production gives, it never goes back behind its start nor past an end of input, and
it leaves as many bodies open as it found. -/
namespace JutsuSyntax.Cursor
variable {α : Type} {c d e : Cursor} {context : Context}

structure Onward (c d : Cursor) : Prop where
  bodies : d.bodies = c.bodies
  passes : ∃ passed, c.ahead = passed ++ d.ahead ∧ ∀ x ∈ passed, x.kind ≠ .finish

namespace Onward

theorem refl (c : Cursor) : Onward c c := ⟨rfl,[],rfl,by simp⟩

theorem trans (first : Onward c d) (last : Onward d e) : Onward c e := by
  obtain ⟨bodies,passed,same,unended⟩ := first
  obtain ⟨bodies',more,same',unended'⟩ := last
  refine ⟨bodies'.trans bodies,passed ++ more,by rw [same,same',List.append_assoc],fun x member => ?_⟩
  exact (List.mem_append.mp member).elim (unended x) (unended' x)

theorem never (h : Onward c d) : d.left ≤ c.left := by
  obtain ⟨passed,same,_⟩ := h.passes
  rw [left,left,same,List.length_append]
  exact Nat.le_add_left _ _

theorem same (first : Onward c d) (second : Onward c e) (level : d.left = e.left) : d = e := by
  obtain ⟨passed,same,_⟩ := first.passes
  obtain ⟨others,same',_⟩ := second.passes
  have ahead := List.append_inj_right' (same.symm.trans same') level
  obtain ⟨_,_⟩ := d
  obtain ⟨_,_⟩ := e
  cases ahead
  cases first.bodies.trans second.bodies.symm
  rfl

theorem ends (h : Onward c d) (ends : Ends c.ahead) : Ends d.ahead := by
  obtain ⟨passed,same,unended⟩ := h.passes
  exact endsBehind (same ▸ ends) unended

end Onward

theorem onwardAdvance (c : Cursor) : Onward c c.advance := by
  by_cases ended : c.kind = .finish
  · rw [advance,if_pos ended]
    exact .refl c
  · obtain ⟨ahead,bodies⟩ := c
    rw [advance,if_neg ended]
    cases ahead with
    | nil => exact .refl _
    | cons token tokens =>
      refine ⟨rfl,[token],rfl,fun x member => ?_⟩
      rw [List.mem_singleton.mp member]
      exact ended

theorem onwardParameters (function : String) (c : Cursor) : Onward c (c.parameters function).after := by
  have past : Onward c c.pastParameters := by
    refine ⟨rfl,c.parameterRun,List.takeWhile_append_dropWhile.symm,fun x member kind => ?_⟩
    have parameter := List.mem_takeWhile_imp member
    simp [isParameterToken,kind] at parameter
  rw [parameters]
  split <;> exact past

theorem onwardFirstMatch {alternatives : List Production}
    (each : ∀ alternative ∈ alternatives, Onward c (alternative c).after) :
    Onward c (firstMatch context alternatives c).after := by
  unfold firstMatch
  suffices all : ∀ furthest, Onward c (firstMatchFrom context c furthest alternatives).after from all c
  induction alternatives with
  | nil => exact fun _ => .refl c
  | cons alternative others ih =>
    intro furthest
    obtain ⟨first,each⟩ := List.forall_mem_cons.mp each
    rw [firstMatchFrom]
    split
    · exact first
    · exact ih each _

theorem onwardLaw : Law (fun _ p c => Onward c (p c).after) :=
  reachLaw Onward.refl Onward.trans (fun _ => onwardAdvance _)

theorem onwardStatements : StatementLaw (fun _ p c => Onward c (p c).after) where
  toLaw := onwardLaw
  parameters := onwardParameters
  unled {c} _ _ := onwardFirstMatch (List.forall_mem_cons.mpr
    ⟨onwardLaw.assignment c,List.forall_mem_singleton.mpr (onwardLaw.expression c)⟩)
  inBody {_ c p} h := by
    refine ⟨?_,h.passes⟩
    change (p c.enterBody).after.bodies - 1 = c.bodies
    rw [h.bodies]
    rfl
  skip {_ c _} newline skips h := by
    rw [skips c newline]
    exact (onwardAdvance c).trans h

end JutsuSyntax.Cursor
