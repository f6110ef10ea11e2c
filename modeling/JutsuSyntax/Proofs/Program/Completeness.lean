import JutsuSyntax.Program
import JutsuSyntax.Proofs.Statement.Completeness

/-! Lines that the grammar makes statements of are read as those statements, in front of the end
or of more lines. -/
namespace JutsuSyntax.Cursor
open Grammar

variable {c : Cursor} {tokens : List Token} {t : Tree} {ts : List Tree}

theorem statementsFinish (kind : c.kind = .finish) : c.statements = ⟨.ok [],c⟩ := by
  rw [statementsStep,if_pos kind]

theorem statementsNewline (kind : c.kind = .newline) : c.statements = c.advance.statements := by
  have more : c.kind ≠ .finish := by simp [kind]
  have blank : c.statement = ⟨.ok none,c⟩ := if_pos (by rw [atBlank,kind])
  have newline : c.expect .newline = ⟨.ok c.current,c.advance⟩ := if_pos kind
  rw [statementsStep,if_neg more,blank]
  change (if c.kind = .finish then _ else _) = _
  rw [if_neg more,newline]
  exact Reply.mapNil c.advance.statements

theorem statementsBehind (ends : c.kind = .newline ∨ c.kind = .finish) (statement : Option Tree) :
    (if c.kind = .finish then ⟨.ok statement.toList,c⟩
      else (c.expect .newline).andThen (fun _ d => d.statements.map (statement.toList ++ ·))) =
    c.statements.map (statement.toList ++ ·) := by
  rcases ends with kind | kind
  · have more : c.kind ≠ .finish := by simp [kind]
    have newline : c.expect .newline = ⟨.ok c.current,c.advance⟩ := if_pos kind
    rw [if_neg more,newline,statementsNewline kind]
    rfl
  · rw [if_pos kind,statementsFinish kind]
    simp [Reply.map,Except.map]

theorem sentenceStatements (h : Statement tokens t) (ends : c.kind = .newline ∨ c.kind = .finish) :
    (c.back tokens).statements = c.statements.map ([t] ++ ·) := by
  have stands : (c.back tokens).statement = ⟨.ok (some t),c⟩ := by
    refine statementRead h ?_ ?_
    · rcases ends with kind | kind <;> simp [atBoundary,kind]
    · rcases ends with kind | kind <;> exact apartOther (by simp [kind]) (by simp [kind])
  obtain ⟨token,others,rfl,follows,_⟩ := statementOpens h
  have more : (c.back (token :: others)).kind ≠ .finish := by
    intro (kind : token.kind = _)
    rw [kind] at follows
    contradiction
  rw [statementsStep,if_neg more,stands]
  exact statementsBehind ends (some t)

theorem linesRead (h : Lines tokens ts) {c : Cursor} (ends : c.kind = .newline ∨ c.kind = .finish) :
    (c.back tokens).statements = c.statements.map (ts ++ ·) := by
  induction h with
  | none => exact (Reply.mapNil c.statements).symm
  | last only => exact sentenceStatements only ends
  | blank kind rest ih => rw [statementsNewline (backKind.trans kind),backNewline kind,ih]
  | line first kind rest ih =>
    have newline {others : List Token} : (c.back (_ :: others)).kind = .newline :=
      backKind.trans kind
    rw [backAppend,sentenceStatements first (.inl newline),statementsNewline newline,
      backNewline kind,ih,Reply.mapAppend]
    rfl

end JutsuSyntax.Cursor
