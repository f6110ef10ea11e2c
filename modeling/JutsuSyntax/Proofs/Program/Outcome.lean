import JutsuSyntax.Proofs.Program.Completeness
import JutsuSyntax.Proofs.Statement.Outcome

/-! What reading the lines of a program gives. -/
namespace JutsuSyntax.Cursor
open Grammar

variable {token : Token} {ahead rest tokens others : List Token} {line : Option Tree}
  {ts : List Tree}

def Line (tokens : List Token) : Option Tree → Prop
  | none => tokens = []
  | some t => Statement tokens t

theorem Line.last (h : Line tokens line) : Lines tokens line.toList := by
  cases line with
  | none => exact h ▸ .none
  | some t => exact .last h

theorem Line.more (h : Line tokens line) (newline : token.kind = .newline) (rest : Lines others ts) :
    Lines (tokens ++ token :: others) (line.toList ++ ts) := by
  cases line with
  | none =>
    cases (h : tokens = [])
    exact .blank newline rest
  | some t => exact .line h newline rest

theorem lineReads (ends : Ends (token :: rest)) :
    Reads (Inside false) (fun _ _ => True) (fun passed _ line => Line passed line)
      (fun tokens => ∃ line, Line tokens line) statement (token :: rest) := by
  have kinds (c : Cursor) (kind : c.kind = token.kind) :
      c.atBlank = Cursor.atBlank ⟨[token],0⟩ := by
    unfold atBlank
    rw [kind]
    rfl
  by_cases blank : Cursor.atBlank ⟨[token],0⟩
  · refine Outcome.congr (q := fun c => ⟨.ok none,c⟩) (.stay rfl) (fun c kind _ => ?_)
    rw [statement,if_pos (by rwa [kinds c kind])]
  · refine Outcome.congr (q := fun c => c.sentence.map some) ?_ (fun c kind _ => ?_)
    · refine Outcome.map (Reads.weaken (sentenceOutcome false (token :: rest) ends) ?_ ?_)
      · exact fun _ _ _ _ _ fits => fits.1
      · intro tokens _ more made
        obtain ⟨t,whole⟩ := made
        exact ⟨more,some t,whole⟩
    · rw [statement,if_neg (by rwa [kinds c kind])]

def LinesReads (ahead : List Token) : Prop :=
  Reads (Inside false) (fun _ _ => True) (fun passed token ts => Lines passed ts ∧ token.kind = .finish)
    (fun tokens => ∃ ts, Lines tokens ts) statements ahead

theorem linesReads (ends : Ends (token :: rest))
    (go : ∀ passed second others, token :: rest = passed ++ second :: others → Ends others →
      LinesReads others) : LinesReads (token :: rest) := by
  by_cases ended : token.kind = .finish
  · refine Outcome.congr (q := fun c => ⟨.ok [],c⟩) (.stay ⟨.none,ended⟩) (fun c kind _ => ?_)
    exact statementsFinish (kind.trans ended)
  refine Outcome.congr (q := fun c => c.statement.andThen (fun line d =>
    if d.kind = .finish then ⟨.ok line.toList,d⟩
    else (d.expect .newline).andThen (fun _ e => e.statements.map (line.toList ++ ·)))) ?_ ?_
  · refine Reads.andThen (lineReads ends) ?_ ?_ ?_ ends
    · intro tokens _ more made
      obtain ⟨line,whole⟩ := made
      exact ⟨more,_,whole.last⟩
    · exact fun _ _ _ fits => ⟨[],_,by simpa using fits.last⟩
    · intro passed second others line same later fits
      by_cases final : second.kind = .finish
      · refine Outcome.congr (q := fun c => ⟨.ok line.toList,c⟩) (.stay ?_) (fun c kind _ => ?_)
        · exact ⟨by simpa using fits.last,final⟩
        · exact if_pos (kind.trans final)
      refine Outcome.congr (q := fun c => (c.expect .newline).andThen (fun _ e =>
        e.statements.map (line.toList ++ ·))) ?_ (fun c kind _ => if_neg (kind ▸ final))
      refine Reads.expectThen later (by simp) (fun _ => trivial) (fun _ _ _ => rfl) ?_
      intro newline behind given kind last
      cases given
      refine ⟨⟨[],_,fits.more kind .none⟩,Outcome.map (Reads.weaken (go passed _ _ same last) ?_ ?_)⟩
      · exact fun _ _ _ _ _ h => ⟨fits.more kind h.1,h.2⟩
      · intro tokens _ more made
        obtain ⟨ts,whole⟩ := made
        exact ⟨more,_,fits.more kind whole⟩
  · intro c kind _
    rw [statementsStep,if_neg (kind ▸ ended)]

theorem linesOutcome (ahead : List Token) (ends : Ends ahead) : LinesReads ahead := by
  obtain ⟨token,rest,same,_⟩ := endsShorter ends
  rw [same]
  refine linesReads (same ▸ ends) (fun passed second others same' later => ?_)
  have shorter := behindShorter (same.trans same')
  exact linesOutcome others later
termination_by ahead.length

end JutsuSyntax.Cursor
