import JutsuSyntax.Proofs.Expression.Completeness
import JutsuSyntax.Proofs.Expression.Law
import JutsuSyntax.Proofs.Expression.Outcome

/-! Which tokens an expression takes. Wherever it starts, a level passes just the tokens that the
grammar makes an expression of that level, up to one that does not go on with them. So the
grammar makes no two trees of the same tokens. -/
namespace JutsuSyntax
open Grammar
open Token (Symbol)

namespace Cursor
variable {c d : Cursor} {l : Level} {tokens : List Token} {t u : Tree}

def finished (c : Cursor) : Cursor := {c with ahead := c.ahead ++ [Token.finish .start]}

theorem finishedAdvance (c : Cursor) : (finished c).advance = finished c.advance := by
  obtain ⟨ahead,bodies⟩ := c
  cases ahead with
  | nil => rfl
  | cons token tokens =>
    by_cases ended : token.kind = .finish <;> simp [advance,finished,kind,current,ended]

theorem finishedFront : KeepsFront finished where
  current := by
    rintro ⟨ahead,bodies⟩
    cases ahead <;> rfl
  advance _ := finishedAdvance _

theorem finishedEnds (c : Cursor) : Ends (finished c).ahead :=
  ⟨_,List.mem_append_right _ (List.mem_singleton_self _),rfl⟩

theorem finishedTakes {α : Type} {within : Nat → Prop} {good : List Token → Token → α → Prop}
    {bad : List Token → List Token → Token → ParseError → Prop} {p : Cursor → Parsed α} {value : α}
    (outcome : Outcome within good bad p (finished c).ahead) (commutes : Commutes finished α p c)
    (counts : within c.bodies) (read : p c = ⟨.ok value,d⟩) :
    d.bodies = c.bodies ∧ ∃ passed, c.ahead = passed ++ d.ahead ∧ good passed d.current value := by
  have whole : p (finished c) = ⟨.ok value,finished d⟩ := by
    rwa [Commutes,read] at commutes
  cases outcome with
  | fails same _ settled _ =>
    have there := settled.here (n := c.bodies) same counts
    cases whole.symm.trans there
  | @passes passed token rest _ same _ settled fits =>
    have there := settled.here (n := c.bodies) (by simpa using same) counts
    obtain ⟨given,after⟩ := Reply.mk.inj (whole.symm.trans there)
    cases given
    have behind : d.ahead ++ [Token.finish .start] = token :: rest := congrArg Cursor.ahead after
    have bodies : (finished d).bodies = c.bodies := by rw [after]
    refine ⟨bodies,passed,?_,?_⟩
    · have same : c.ahead ++ [Token.finish .start] = passed ++ token :: rest := same
      rw [← behind,← List.append_assoc] at same
      exact List.append_cancel_right same
    · have current : (finished d).current = token := by rw [after]; rfl
      rw [← finishedFront.current d,current]
      exact fits

theorem levelTakes (read : c.level l = ⟨.ok t,d⟩) : d.bodies = c.bodies ∧
    ∃ passed, c.ahead = passed ++ d.ahead ∧ Operand l passed t ∧ Stops l passed d.kind :=
  finishedTakes (levelReads l _ (finishedEnds c)) (finishedFront.commutes.level l c) trivial read

theorem backOf {passed : List Token} (bodies : d.bodies = c.bodies) (ahead : c.ahead = passed ++ d.ahead) :
    c = d.back passed := by
  obtain ⟨_,_⟩ := c
  cases bodies
  cases ahead
  rfl

theorem levelPasses : c.level l = ⟨.ok t,d⟩ ↔ d.bodies = c.bodies ∧
    ∃ passed, c.ahead = passed ++ d.ahead ∧ Operand l passed t ∧ Stops l passed d.kind := by
  constructor
  · exact levelTakes
  · rintro ⟨bodies,passed,ahead,operand,stops⟩
    rw [backOf bodies ahead]
    exact operandRead operand stops

theorem expressionLevel (read : c.expression = ⟨.ok u,d⟩) :
    ∃ t, c.level .disjunction = ⟨.ok t,d⟩ ∧ u = Tree.expression t := by
  obtain ⟨t,given,same⟩ := Reply.mapOk read
  exact ⟨t,given,same.symm⟩

end Cursor

namespace Grammar
variable {l : Level} {tokens : List Token} {t u : Tree}

theorem stopsFinish : Stops l tokens .finish := ⟨nofun,nofun⟩

theorem operandUnique (first : Operand l tokens t) (second : Operand l tokens u) : t = u := by
  have read : ∀ {v}, Operand l tokens v →
      (Cursor.back ⟨[Token.finish .start],0⟩ tokens).level l = ⟨.ok v,⟨[Token.finish .start],0⟩⟩ :=
    fun operand => Cursor.operandRead operand stopsFinish
  have same := congrArg Reply.result ((read first).symm.trans (read second))
  exact Except.ok.inj same

end Grammar

def binaryOperators : List Symbol :=
  [.orWord,.andWord,.equal,.notEqual,.atMost,.less,.atLeast,.greater,.plus,.minus,
   .star,.slash,.slashSlash,.percent,.starStar]

theorem binaryJoints : Level.disjunction.joints = binaryOperators := rfl

theorem expressionDerives (c d : Cursor) (u : Tree) : c.expression = ⟨.ok u,d⟩ ↔
    d.bodies = c.bodies ∧ ∃ t passed, u = Tree.expression t ∧ c.ahead = passed ++ d.ahead ∧
      Operand .disjunction passed t ∧ (∀ s ∈ binaryOperators, d.kind ≠ .symbol s) ∧
      ¬ (d.kind = .symbol .openParen ∧ ∃ last ∈ passed.getLast?, last.kind = .name) := by
  constructor
  · intro read
    obtain ⟨t,given,rfl⟩ := Cursor.expressionLevel read
    obtain ⟨bodies,passed,ahead,operand,joints,call⟩ := Cursor.levelPasses.mp given
    refine ⟨bodies,t,passed,rfl,ahead,operand,joints,?_⟩
    rintro ⟨paren,last,member,named⟩
    exact call paren last member named
  · rintro ⟨bodies,t,passed,rfl,ahead,operand,joints,call⟩
    have stops : Stops .disjunction passed d.kind :=
      ⟨joints,fun paren last member named => call ⟨paren,last,member,named⟩⟩
    have read := Cursor.levelPasses.mpr ⟨bodies,passed,ahead,operand,stops⟩
    rw [Cursor.expression,read]
    rfl

end JutsuSyntax
