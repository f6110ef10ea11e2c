import JutsuSyntax.Proofs.Program.Completeness
import JutsuSyntax.Proofs.Statement.Onward

/-! The rounds of the two loops that read statements. What is read has tokens, so a round that does
not fail gets on, also past a blank line, and a loop has no more rounds than there are tokens. -/
namespace JutsuSyntax.Cursor

variable {c d e : Cursor} {l : Level} {t : Tree} {line : Option Tree}

structure Advances (c d : Cursor) : Prop where
  onward : Onward c d
  shorter : d.left < c.left

theorem Advances.trans (first : Advances c d) (last : Onward d e) : Advances c e :=
  ⟨first.onward.trans last,Nat.lt_of_le_of_lt last.never first.shorter⟩

theorem advanceAdvances (more : c.kind ≠ .finish) : Advances c c.advance :=
  ⟨onwardAdvance c,Nat.lt_of_succ_le (Nat.le_of_eq (advanceShortens more))⟩

theorem levelAdvances (read : c.level l = ⟨.ok t,d⟩) : Advances c d := by
  have onward := onwardLaw.level l c
  have consumes := levelConsumes l c
  rw [read] at onward consumes
  exact ⟨onward,consumes.2 t rfl⟩

theorem expressionAdvances (read : c.expression = ⟨.ok t,d⟩) : Advances c d := by
  have onward := onwardLaw.expression c
  have consumes := expressionConsumes c
  rw [read] at onward consumes
  exact ⟨onward,consumes.2 t rfl⟩

theorem statementAdvances (read : c.statement = ⟨.ok (some t),d⟩) : Advances c d := by
  obtain ⟨filled,sentence⟩ := statementSome read
  have onward := onwardStatements.sentence c filled
  have consumes := sentenceConsumes c
  rw [sentence] at onward consumes
  exact ⟨onward,consumes.2 t rfl⟩

def lineRound (c : Cursor) : Parsed (Option Tree) :=
  c.statement.andThen (fun line d =>
    if d.kind = .finish then ⟨.ok line,d⟩ else (d.expect .newline).map (fun _ => line))

def bodyRound (c : Cursor) : Parsed (Option Tree) :=
  c.statement.andThen (fun line d => ⟨.ok line,d.pastNewline⟩)

theorem pastNewlineOnward (c : Cursor) : Onward c c.pastNewline := by
  unfold pastNewline
  split
  · exact onwardAdvance c
  · exact .refl c

theorem expectNewline {token : Token} (read : c.expect .newline = ⟨.ok token,d⟩) : Advances c d := by
  unfold expect at read
  split at read
  · rename_i newline
    cases read
    exact advanceAdvances (by simp [newline])
  · cases read

theorem lineAdvances (more : c.kind ≠ .finish) (read : c.lineRound = ⟨.ok line,d⟩) : Advances c d := by
  obtain ⟨statement,e,first,behind⟩ := Reply.andThenOk read
  cases statement with
  | none =>
    obtain ⟨_,rfl⟩ := statementNone first
    rw [if_neg more] at behind
    obtain ⟨token,newline,_⟩ := Reply.mapOk behind
    exact expectNewline newline
  | some t =>
    have advances := statementAdvances first
    split at behind
    · cases behind
      exact advances
    · obtain ⟨token,newline,_⟩ := Reply.mapOk behind
      exact advances.trans (expectNewline newline).onward

theorem bodyAdvances (more : ¬ (c.kind = .symbol .closeBrace ∨ c.kind = .finish))
    (read : c.bodyRound = ⟨.ok line,d⟩) : Advances c d := by
  obtain ⟨statement,e,first,behind⟩ := Reply.andThenOk read
  cases behind
  cases line with
  | none =>
    obtain ⟨blank,rfl⟩ := statementNone first
    obtain ⟨closes,unended⟩ := not_or.mp more
    have newline : e.kind = .newline := by simpa [closes,unended] using atBlankIff.mp blank
    rw [pastNewline,if_pos newline]
    exact advanceAdvances unended
  | some t => exact (statementAdvances first).trans (pastNewlineOnward e)

theorem statementsRound (more : c.kind ≠ .finish) : c.statements =
    c.lineRound.andThen (fun line d => d.statements.map (line.toList ++ ·)) := by
  rw [statementsStep,if_neg more,lineRound,Reply.andThenAndThen]
  congr 1
  funext line d
  split
  · rename_i ended
    simp [Reply.andThen,statementsFinish ended,Reply.map,Except.map]
  · rw [Reply.mapAndThen]

theorem bodyStatementsRound (more : ¬ (c.kind = .symbol .closeBrace ∨ c.kind = .finish)) : c.bodyStatements =
    c.bodyRound.andThen (fun line d => d.bodyStatements.map (line.toList ++ ·)) := by
  rw [bodyStatementsStep,bodyRound,Reply.andThenAndThen,statement]
  by_cases newline : c.kind = .newline
  · have past : c.pastNewline = c.advance := if_pos newline
    rw [newline,if_pos (atBlankIff.mpr (.inl newline))]
    simp only [Reply.andThen,past]
    exact (Reply.mapNil _).symm
  · have filled : ¬ c.atBlank := mt atBlankIff.mp (not_or.mpr ⟨newline,fun ends => more ends.symm⟩)
    rw [if_neg filled,Reply.mapAndThen]
    split <;> simp_all [Reply.andThen]

structure Loop (stop : Cursor → Prop) (round : Cursor → Parsed (Option Tree)) (loop : Cursor → Parsed (List Tree)) :
    Prop where
  stops {c : Cursor} (done : stop c) : loop c = ⟨.ok [],c⟩
  goes {c : Cursor} (more : ¬ stop c) :
    loop c = (round c).andThen (fun line d => (loop d).map (line.toList ++ ·))
  ends {c : Cursor} (ended : c.kind = .finish) : stop c
  advances {c d : Cursor} {line : Option Tree} (more : ¬ stop c) (read : round c = ⟨.ok line,d⟩) : Advances c d

theorem statementsLoop : Loop (fun c => c.kind = .finish) lineRound statements where
  stops := statementsFinish
  goes := statementsRound
  ends := id
  advances := lineAdvances

theorem bodyLoop : Loop (fun c => c.kind = .symbol .closeBrace ∨ c.kind = .finish) bodyRound bodyStatements where
  stops {c} done := by
    rw [bodyStatementsStep]
    rcases done with kind | kind <;> rw [kind]
  goes := bodyStatementsRound
  ends := .inr
  advances := bodyAdvances

inductive Rounds (stop : Cursor → Prop) (round : Cursor → Parsed (Option Tree)) :
    Nat → Cursor → Parsed (List Tree) → Prop where
  | stops {c : Cursor} (done : stop c) : Rounds stop round 0 c ⟨.ok [],c⟩
  | fails {c d : Cursor} {e} (more : ¬ stop c) (failed : round c = ⟨.error e,d⟩) :
      Rounds stop round 1 c ⟨.error e,d⟩
  | goes {c d : Cursor} {line n reply} (more : ¬ stop c) (read : round c = ⟨.ok line,d⟩) (advances : Advances c d)
      (rest : Rounds stop round n d reply) : Rounds stop round (n + 1) c (reply.map (line.toList ++ ·))

theorem Loop.rounds {stop : Cursor → Prop} {round loop} (h : Loop stop round loop) (c : Cursor) :
    ∃ n, n ≤ c.left ∧ Rounds stop round n c (loop c) := by
  induction size : c.left using Nat.strongRecOn generalizing c with
  | ind size ih =>
    subst size
    by_cases done : stop c
    · exact ⟨0,Nat.zero_le _,h.stops done ▸ .stops done⟩
    have filled := advanceShortens (mt h.ends done)
    generalize same : round c = r
    obtain ⟨result,d⟩ := r
    cases result with
    | error e =>
      have failed : loop c = ⟨.error e,d⟩ := by
        rw [h.goes done,same]
        rfl
      exact ⟨1,by omega,failed ▸ .fails done same⟩
    | ok line =>
      have goes : loop c = (loop d).map (line.toList ++ ·) := by
        rw [h.goes done,same]
        rfl
      have advances := h.advances done same
      have shorter := advances.shorter
      obtain ⟨n,few,rest⟩ := ih d.left shorter d rfl
      exact ⟨n + 1,by omega,goes ▸ .goes done same advances rest⟩

end JutsuSyntax.Cursor
