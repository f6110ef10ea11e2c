import JutsuSyntax.Proofs.Statement.HeaderOutcome
import JutsuSyntax.Proofs.Statement.UnledOutcome

/-! What reading a statement or a body gives. -/
namespace JutsuSyntax.Cursor
open Grammar
open Token (Symbol)

variable {within : Nat → Prop} {token : Token} {ahead rest tokens : List Token}
  {t : Tree} {ts : List Tree}

inductive Led (keyword : Symbol) : List Token → Tree → Prop where
  | led {first others t} (kind : first.kind = .symbol keyword)
      (value : Operand .disjunction others t) : Led keyword (first :: others) (Tree.expression t)

theorem ledReads (keyword : Symbol) (ends : Ends ahead) :
    Reads within (fun _ _ => True) (fun passed token t => Led keyword passed t ∧ Apart passed token.kind)
      (fun tokens => ∃ t, Led keyword tokens t) (led keyword) ahead := by
  obtain ⟨filler,some,operand⟩ := makesSome .disjunction
  refine Reads.expectThen ends (by simp) (fun _ => trivial) (fun _ _ _ => rfl) ?_
  intro token rest _ kind later
  refine ⟨⟨filler,_,.led kind operand⟩,?_⟩
  have value := (expressionReads (levelReads .disjunction rest later)).loosen
  refine (Reads.weaken value ?_ ?_).narrow (fun _ _ => trivial)
  · intro passed last _ _ _ given
    obtain ⟨t,rfl,inner,stops⟩ := given
    exact ⟨.led kind inner,(apartCons (operandFilled inner)).mpr (apartOfStops stops)⟩
  · intro tokens _ more given
    obtain ⟨t,inner⟩ := given
    exact ⟨more,_,.led kind inner⟩

theorem keywordReads (keyword : Symbol) {inside : Bool} {f : Tree → Tree} (ends : Ends ahead)
    (whole : ∀ tokens t, Led keyword tokens t → Statement tokens (f t)) :
    StatementReads (fun c => (led keyword c).map f) inside ahead := by
  refine Outcome.map (Reads.weaken (ledReads keyword ends) ?_ ?_)
  · exact fun _ _ _ _ _ fits => ⟨whole _ _ fits.1,fits.2⟩
  · exact fun _ _ more ⟨t,fits⟩ => ⟨more,_,whole _ _ fits⟩

def BodyReads (ahead : List Token) : Prop :=
  Reads (fun _ => True) (fun _ _ => True) (fun passed _ ts => Body passed ts)
    (fun tokens => ∃ ts, Body tokens ts) body ahead

def InnerReads (ahead : List Token) : Prop :=
  Reads (0 < ·) (fun _ _ => True) (fun passed _ ts => Statements passed ts)
    (fun tokens => ∃ ts, Statements tokens ts) bodyStatements ahead

theorem bodiedReads {α : Type} {first : Cursor → Parsed α} {front : List Token → α → Prop}
    {inside : Bool} {f : α → List Tree → Tree} (ends : Ends ahead)
    (begun : Reads (Inside inside) (fun _ _ => True) (fun passed _ a => front passed a)
      (fun tokens => ∃ a, front tokens a) first ahead)
    (filled : ∀ tokens a, front tokens a → tokens ≠ [])
    (whole : ∀ tokens inner a ts, front tokens a → Body inner ts → Statement (tokens ++ inner) (f a ts))
    (go : ∀ passed token rest, ahead = passed ++ token :: rest → passed ≠ [] → Ends (token :: rest) →
      BodyReads (token :: rest)) :
    StatementReads (fun c => (first c).andThen (fun a d => d.body.map (f a))) inside ahead := by
  let opening : Token := ⟨.symbol .openBrace,none,.start⟩
  let closing : Token := ⟨.symbol .closeBrace,none,.start⟩
  have empty : Body [opening,closing] [] := @Body.braces opening closing [] [] rfl .none rfl
  refine Reads.andThen begun ?_ ?_ ?_ ends
  · intro tokens _ more given
    obtain ⟨a,fits⟩ := given
    exact ⟨more ++ [opening,closing],_,by simpa using whole _ _ a [] fits empty⟩
  · intro passed token a fits
    exact ⟨_,_,whole _ _ a [] fits empty⟩
  · intro passed token rest a same later fits
    have body := go passed token rest same (filled _ _ fits) later
    refine Outcome.map (Outcome.narrow (Reads.weaken body ?_ ?_) (fun _ _ => trivial))
    · intro inner last _ ts _ braces
      obtain ⟨front,brace,rfl,closes⟩ := bodyCloses braces
      exact ⟨whole _ _ a ts fits braces,apartBrace ⟨passed ++ front,brace,by simp,closes⟩⟩
    · intro tokens _ more given
      obtain ⟨ts,braces⟩ := given
      exact ⟨more,_,by simpa using whole _ _ a ts fits braces⟩

section
variable {inside : Bool}

theorem definitionReads (ends : Ends ahead)
    (go : ∀ passed token rest, ahead = passed ++ token :: rest → passed ≠ [] → Ends (token :: rest) →
      BodyReads (token :: rest)) :
    StatementReads (fun c => c.header.andThen (fun head d =>
      d.body.map (Tree.definition head.name head.parameters))) inside ahead := by
  refine bodiedReads ends (headerOutcome ends) ?_ ?_ go
  · intro tokens _ given
    cases given
    exact List.cons_ne_nil _ _
  · intro tokens inner _ ts given braces
    obtain ⟨kind,named,opens,list,closes⟩ := given
    simpa using .definition kind named opens list closes braces

theorem conditionalReads (ends : Ends ahead)
    (go : ∀ passed token rest, ahead = passed ++ token :: rest → passed ≠ [] → Ends (token :: rest) →
      BodyReads (token :: rest)) :
    StatementReads (fun c => (led .ifWord c).andThen (fun t d => d.body.map (Tree.conditional t)))
      inside ahead := by
  have begun : Reads (Inside inside) (fun _ _ => True) (fun passed _ t => Led .ifWord passed t)
      (fun tokens => ∃ t, Led .ifWord tokens t) (led .ifWord) ahead :=
    Reads.weaken (ledReads .ifWord ends) (fun _ _ _ _ _ fits => fits.1)
      (fun _ _ more whole => ⟨more,whole⟩)
  refine bodiedReads ends begun ?_ ?_ go
  · intro tokens _ given
    cases given
    exact List.cons_ne_nil _ _
  · intro tokens inner _ ts given braces
    obtain ⟨kind,value⟩ := given
    exact .conditional kind value braces

theorem returnReads (ends : Ends ahead) :
    StatementReads (fun c => (led .releaseWord c).map Tree.returned) inside ahead := by
  refine keywordReads .releaseWord ends ?_
  intro tokens _ given
  obtain ⟨kind,value⟩ := given
  exact .returned kind value

theorem printReads (ends : Ends ahead) :
    StatementReads (fun c => (led .printWord c).map (fun t => Tree.call "print" [t])) inside ahead := by
  refine keywordReads .printWord (f := fun t => Tree.call "print" [t]) ends ?_
  intro tokens _ given
  obtain ⟨kind,value⟩ := given
  exact .print kind value

theorem sentenceReads (ends : Ends (token :: rest))
    (go : ∀ passed second others, token :: rest = passed ++ second :: others → passed ≠ [] →
      Ends (second :: others) → BodyReads (second :: others)) :
    StatementReads sentence inside (token :: rest) := by
  by_cases define : token.kind = .symbol .jutsuWord
  · refine Outcome.congr (definitionReads ends go) (fun c kind _ => ?_)
    rw [sentenceStep,kind,define]
  by_cases test : token.kind = .symbol .ifWord
  · refine Outcome.congr (conditionalReads ends go) (fun c kind _ => ?_)
    rw [sentenceStep,kind,test]
  by_cases release : token.kind = .symbol .releaseWord
  · refine Outcome.congr (returnReads ends) (fun c kind _ => ?_)
    rw [sentenceStep,kind,release]
  by_cases print : token.kind = .symbol .printWord
  · refine Outcome.congr (printReads ends) (fun c kind _ => ?_)
    rw [sentenceStep,kind,print]
  refine Outcome.congr (unledReads inside ends) (fun c kind _ => ?_)
  rw [sentenceStep,kind]
  split <;> trivial

end

theorem bodyReads (ends : Ends ahead)
    (go : ∀ token rest, ahead = token :: rest → Ends rest → InnerReads rest) : BodyReads ahead := by
  let closing : Token := ⟨.symbol .closeBrace,none,.start⟩
  unfold BodyReads
  rw [funext bodyStep]
  refine Reads.expectThen ends (by simp) (fun _ => trivial) (fun _ _ _ => rfl) ?_
  intro opening rest same opens later
  have whole {tokens ts} (h : Statements tokens ts) : Body (opening :: (tokens ++ [closing])) ts :=
    .braces opens h rfl
  refine ⟨⟨_,_,whole .none⟩,Reads.andThen (Outcome.inBody (go opening rest same later)) ?_ ?_ ?_ later⟩
  · intro tokens _ more given
    obtain ⟨ts,fits⟩ := given
    exact ⟨more ++ [closing],ts,by simpa using whole fits⟩
  · exact fun passed _ ts fits => ⟨[closing],ts,whole fits⟩
  · intro passed token rest ts _ later fits
    refine Reads.expectLast later (by simp) (fun _ => trivial) (fun closing next rest _ closes => ?_)
    exact .braces opens fits closes

theorem statementsOne (h : Statement tokens t) : Statements tokens [t] := by
  rw [← List.append_nil tokens]
  exact .more h separateNil .none

theorem separateFront {inner behind others : List Token} (apart : Apart tokens token.kind)
    (same : token :: others = inner ++ behind) : Separate tokens inner := by
  cases inner with
  | nil => exact separateNil
  | cons first others =>
    cases same
    exact separateCons.mpr apart

theorem innerBlank (newline : token.kind = .newline) (ends : Ends rest) (inner : InnerReads rest) :
    InnerReads (token :: rest) := by
  obtain ⟨second,others,rfl⟩ := endsFilled ends
  refine Reads.pass (by simp [newline]) ⟨[],_,.blank newline .none⟩ (Reads.weaken inner ?_ ?_) ?_
  · exact fun _ _ _ _ _ fits => .blank newline fits
  · exact fun _ _ more ⟨ts,fits⟩ => ⟨more,ts,.blank newline fits⟩
  · intro c kind _ _
    rw [bodyStatementsStep,kind.trans newline]

theorem innerMore (ends : Ends ahead) (first : StatementReads sentence true ahead)
    (go : ∀ passed second others, ahead = passed ++ second :: others → passed ≠ [] →
      Ends (second :: others) → InnerReads (second :: others)) :
    Reads (0 < ·) (fun _ _ => True) (fun passed _ ts => Statements passed ts)
      (fun tokens => ∃ ts, Statements tokens ts)
      (fun c => c.sentence.andThen (fun statement d => d.bodyStatements.map (statement :: ·))) ahead := by
  have first' : Reads (0 < ·) (fun _ _ => True)
      (fun passed token t => Statement passed t ∧ Apart passed token.kind)
      (fun tokens => ∃ t, Statement tokens t) sentence ahead :=
    Outcome.narrow first (fun n inside => by simpa [Inside] using inside)
  refine Reads.andThen first' ?_ ?_ ?_ ends
  · intro tokens _ more given
    obtain ⟨t,whole⟩ := given
    exact ⟨more,[t],statementsOne whole⟩
  · intro passed last t given
    obtain ⟨whole,_⟩ := given
    exact ⟨[],[t],.more whole separateNil .none⟩
  · intro passed second others t same later given
    obtain ⟨whole,apart⟩ := given
    refine Outcome.map (Reads.weaken (go passed second others same (statementFilled whole) later) ?_ ?_)
    · exact fun inner last behind ts same' fits => .more whole (separateFront apart same') fits
    · intro tokens head more given
      obtain ⟨ts,fits⟩ := given
      obtain ⟨xs,rfl⟩ := List.head?_eq_some_iff.mp head
      exact ⟨more,_,.more whole (separateCons.mpr apart) fits⟩

theorem innerReads (ends : Ends (token :: rest))
    (first : StatementReads sentence true (token :: rest))
    (line : Ends rest → InnerReads rest)
    (go : ∀ passed second others, token :: rest = passed ++ second :: others → passed ≠ [] →
      Ends (second :: others) → InnerReads (second :: others)) : InnerReads (token :: rest) := by
  by_cases closes : token.kind = .symbol .closeBrace ∨ token.kind = .finish
  · refine Outcome.congr (q := fun c => ⟨.ok [],c⟩) (.stay .none) (fun c kind _ => ?_)
    rcases closes with closes | closes <;> rw [bodyStatementsStep,kind,closes]
  by_cases newline : token.kind = .newline
  · have behind := endsPast ends (by simp [newline])
    exact innerBlank newline behind (line behind)
  refine Outcome.congr (innerMore ends first go) (fun c kind _ => ?_)
  rw [bodyStatementsStep,kind]
  split <;> simp_all [pastNewlineStatements]

mutual
theorem sentenceOutcome (inside : Bool) (ahead : List Token) (ends : Ends ahead) :
    StatementReads sentence inside ahead := by
  obtain ⟨token,rest,same,_⟩ := endsShorter ends
  rw [same]
  refine sentenceReads (same ▸ ends) (fun passed second others same' filled later => ?_)
  have shorter := passedShorter (same.trans same') filled
  exact bodyOutcome (second :: others) later
termination_by ahead.length * 2
theorem bodyOutcome (ahead : List Token) (ends : Ends ahead) : BodyReads ahead := by
  refine bodyReads ends (fun token rest same later => ?_)
  have shorter : rest.length < ahead.length := by simp [same]
  exact innerOutcome rest later
termination_by ahead.length * 2
theorem innerOutcome (ahead : List Token) (ends : Ends ahead) : InnerReads ahead := by
  obtain ⟨token,rest,same,shorter⟩ := endsShorter ends
  have first := sentenceOutcome true ahead ends
  rw [same] at first ⊢
  refine innerReads (same ▸ ends) first (fun later => innerOutcome rest later) ?_
  intro passed second others same' filled later
  have shortest := passedShorter (same.trans same') filled
  exact innerOutcome (second :: others) later
termination_by ahead.length * 2 + 1
end

end JutsuSyntax.Cursor
