import JutsuSyntax.Proofs.Expression.Acceptance
import JutsuSyntax.Proofs.Statement.Commuting
import JutsuSyntax.Proofs.Statement.Onward
import JutsuSyntax.Proofs.Statement.Outcome

/-! Which tokens a statement takes: just those that the grammar makes the statement of, up to a
token that may stand behind it. -/
namespace JutsuSyntax.Cursor
open Grammar

variable {c d : Cursor} {token : Token} {tokens : List Token} {t : Tree}

theorem finishedEven (c d : Cursor) : Even (onAhead (· ++ [Token.finish .start])) c d := by
  simp only [Even,left,onAhead,List.length_append]
  omega

theorem finishedStatements : StatementLaw (Commutes finished) :=
  KeepsFront.statements (g := (· ++ [Token.finish .start])) finishedFront onwardLaw
    (fun _ => finishedEven _ _) (finishedFront.skip (finishedAdvance _))

theorem sentenceTakes (filled : c.atBlank = false) (read : c.sentence = ⟨.ok t,d⟩) : d.bodies = c.bodies ∧
    ∃ passed, c.ahead = passed ++ d.ahead ∧ Statement passed t ∧ Apart passed d.kind :=
  finishedTakes (sentenceOutcome (0 < c.bodies) _ (finishedEnds c))
    (finishedStatements.sentence c filled) rfl read

def Whole (c : Cursor) (tokens : List Token) (t : Tree) : Prop :=
  (c.back tokens).statement = ⟨.ok (some t),c⟩

theorem wholeOf (result : (c.back tokens).statement.result = .ok (some t))
    (after : (c.back tokens).statement.after = c) : c.Whole tokens t := by
  rw [Whole,← result]
  exact congrArg (Reply.mk _) after

theorem wholeMakes (whole : c.Whole tokens t) : Statement tokens t ∧ Apart tokens c.kind := by
  obtain ⟨filled,read⟩ := statementSome whole
  obtain ⟨_,passed,same,fits⟩ := sentenceTakes filled read
  obtain rfl : tokens = passed := List.append_cancel_right same
  exact fits

theorem unledEnds (read : c.unled = ⟨.ok t,d⟩) : d.atBoundary := by
  have ends := firstMatchEnds c (congrArg Reply.result read)
  have after : (firstMatchFrom .statement c c [assignment,expression]).after = d := congrArg Reply.after read
  rwa [after] at ends

theorem namedWhole (named : token.kind = .name) : c.Whole (token :: tokens) t ↔
    Statement (token :: tokens) t ∧ Apart (token :: tokens) c.kind ∧ c.atBoundary := by
  constructor
  · intro whole
    obtain ⟨makes,apart⟩ := wholeMakes whole
    -- No keyword leads the statement, so where it ends is tested.
    have unled : (c.back (token :: tokens)).unled = ⟨.ok t,c⟩ := by
      rw [← sentenceUnled (c := c.back (token :: tokens)) (.inl named)]
      exact (statementSome whole).2
    exact ⟨makes,apart,unledEnds unled⟩
  · rintro ⟨makes,apart,boundary⟩
    exact statementRead makes boundary apart

end JutsuSyntax.Cursor
