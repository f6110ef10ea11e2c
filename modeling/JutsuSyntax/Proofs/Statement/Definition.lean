import JutsuSyntax.Proofs.Statement.Completeness

/-! Definitions and their heads. The names and commas behind the opening parenthesis are judged as
one run: they are a parameter list, and the definition has just these names, or the error counts
them. -/
namespace JutsuSyntax.Cursor
open Grammar (Parameters)

variable {keyword name opening : Token} {run rest list : List Token} {function : String} {bodies : Nat}
  {names : List String} {e : ParseError}

def parameterNames (run : List Token) : List String := (run.filter (·.kind = .name)).map Token.payload

theorem parameterTokens (only : ∀ x ∈ run, x.kind = .name ∨ x.kind = .symbol .comma) :
    ∀ x ∈ run, isParameterToken x := by
  intro x member
  simpa [isParameterToken] using only x member

theorem parametersOk (only : ∀ x ∈ run, isParameterToken x)
    (ended : ∀ x ∈ rest.head?, isParameterToken x = false) (listed : ∃ names, Parameters run names) :
    parameters function ⟨run ++ rest,bodies⟩ = ⟨.ok (parameterNames run),⟨rest,bodies⟩⟩ := by
  obtain ⟨cut,past⟩ := @parametersCut run rest bodies only ended
  rw [parameters,cut,past,Tally.ofRunNames]
  exact if_pos ((Tally.fitsIff only).mpr listed)

theorem parametersError (only : ∀ x ∈ run, isParameterToken x)
    (ended : ∀ x ∈ rest.head?, isParameterToken x = false) (unlisted : ¬ ∃ names, Parameters run names) :
    ∃ first others e, run = first :: others ∧ e = .badParameters function
        (run.countP (·.kind = .name)) (run.countP (·.kind = .symbol .comma)) first.location ∧
      parameters function ⟨run ++ rest,bodies⟩ = ⟨.error e,⟨rest,bodies⟩⟩ := by
  obtain ⟨cut,past⟩ := @parametersCut run rest bodies only ended
  -- Without any tokens there are no parameters, which the grammar allows.
  have filled : run ≠ [] := by
    intro empty
    exact unlisted ⟨[],empty ▸ .none⟩
  obtain ⟨first,others,same⟩ := List.exists_cons_of_ne_nil filled
  refine ⟨first,others,_,same,rfl,?_⟩
  rw [parameters,cut,past,Tally.ofRunCommas only,Tally.ofRunNames,List.length_map,
    ← List.countP_eq_length_filter]
  refine (if_neg (mt (Tally.fitsIff only).mp unlisted)).trans ?_
  rw [same]
  rfl

theorem parametersPassed (only : ∀ x ∈ run, isParameterToken x)
    (ended : ∀ x ∈ rest.head?, isParameterToken x = false)
    (read : (parameters function ⟨run ++ rest,bodies⟩).result = .ok names) :
    (∃ names, Parameters run names) ∧ names = parameterNames run ∧
      (parameters function ⟨run ++ rest,bodies⟩).after = ⟨rest,bodies⟩ := by
  by_cases listed : ∃ names, Parameters run names
  · rw [parametersOk only ended listed] at read ⊢
    exact ⟨listed,(Except.ok.inj read).symm,rfl⟩
  · obtain ⟨_,_,_,_,_,failed⟩ := @parametersError run rest function bodies only ended listed
    rw [failed] at read
    contradiction

theorem parametersRefused (only : ∀ x ∈ run, isParameterToken x)
    (ended : ∀ x ∈ rest.head?, isParameterToken x = false)
    (failed : (parameters function ⟨run ++ rest,bodies⟩).result = .error e) :
    ∃ first, (run ++ rest).head? = some first ∧ e = .badParameters function
      (run.countP (·.kind = .name)) (run.countP (·.kind = .symbol .comma)) first.location := by
  by_cases listed : ∃ names, Parameters run names
  · rw [parametersOk only ended listed] at failed
    contradiction
  · obtain ⟨first,others,error,same,counted,given⟩ :=
      @parametersError run rest function bodies only ended listed
    rw [given] at failed
    cases failed
    exact ⟨first,by rw [same]; rfl,counted⟩

section
variable (kind : keyword.kind = .symbol .jutsuWord) (named : name.kind = .name)
  (opens : opening.kind = .symbol .openParen)
include kind

theorem definitionStep : sentence ⟨keyword :: list,bodies⟩ =
    (header ⟨keyword :: list,bodies⟩).andThen (fun head d =>
      d.body.map (Tree.definition head.name head.parameters)) := by
  have same : (⟨keyword :: list,bodies⟩ : Cursor).kind = .symbol .jutsuWord := kind
  rw [sentenceStep,same]

include named opens

theorem headerList : header ⟨keyword :: name :: opening :: list,bodies⟩ =
    (parameters name.payload ⟨list,bodies⟩).andThen (fun names d =>
      (d.expect (.symbol .closeParen)).map (fun _ => ⟨name.payload,names⟩)) := by
  let c : Cursor := ⟨list,bodies⟩
  change (c.back [keyword,name,opening]).header = _
  rw [header,backThen kind (by simp),backThen named (by simp),backThen opens (by simp)]
  rfl

theorem definitionFails (failed : (parameters name.payload ⟨list,bodies⟩).result = .error e) :
    (sentence ⟨keyword :: name :: opening :: list,bodies⟩).result = .error e := by
  rw [definitionStep kind,headerList kind named opens,Reply.andThenAndThen,Reply.andThen,failed]

theorem definitionPasses {head : Header} {inner : Cursor}
    (passes : header ⟨keyword :: name :: opening :: list,bodies⟩ = ⟨.ok head,inner⟩) :
    ∃ names, (parameters name.payload ⟨list,bodies⟩).result = .ok names ∧
      sentence ⟨keyword :: name :: opening :: list,bodies⟩ =
        inner.body.map (Tree.definition name.payload names) := by
  obtain ⟨names,d,read,closed⟩ := Reply.andThenOk ((headerList kind named opens).symm.trans passes)
  obtain ⟨_,_,same⟩ := Reply.mapOk closed
  refine ⟨names,by rw [read],?_⟩
  rw [definitionStep kind,passes,← same]
  rfl

end

/-- The run of names and commas behind the parenthesis is judged as a whole. A list of parameters
gives its names, and the definition has them in their order; of any other run the error tells how
many names and commas there are. -/
theorem parametersJudged (keyword name opening : Token) (run rest : List Token) (bodies : Nat)
    (kind : keyword.kind = .symbol .jutsuWord) (named : name.kind = .name)
    (opens : opening.kind = .symbol .openParen)
    (only : ∀ x ∈ run, x.kind = .name ∨ x.kind = .symbol .comma)
    (maximal : ∀ x ∈ rest.head?, ¬ (x.kind = .name ∨ x.kind = .symbol .comma)) :
    let list := parameters name.payload ⟨run ++ rest,bodies⟩
    let whole : Cursor := ⟨keyword :: name :: opening :: (run ++ rest),bodies⟩
    ((∃ names, list.result = .ok names) ↔ ∃ names, Parameters run names) ∧
    (∀ names, list.result = .ok names → names = parameterNames run ∧ list.after = ⟨rest,bodies⟩) ∧
    (∀ e, list.result = .error e → whole.sentence.result = .error e ∧
      ∃ first, (run ++ rest).head? = some first ∧ e = .badParameters name.payload
        (run.countP (·.kind = .name)) (run.countP (·.kind = .symbol .comma)) first.location) ∧
    ∀ head inner, whole.header = ⟨.ok head,inner⟩ →
      whole.sentence = inner.body.map (fun statements => ⟨.definition,some name.payload,
        (parameterNames run).map (Tree.leaf .identifier) ++ [⟨.body,none,statements⟩]⟩) := by
  have tokens := parameterTokens only
  have ended : ∀ x ∈ rest.head?, isParameterToken x = false := by
    intro x first
    simpa [isParameterToken] using maximal x first
  refine ⟨⟨?_,?_⟩,?_,?_,?_⟩
  · intro given
    obtain ⟨names,read⟩ := given
    exact (parametersPassed tokens ended read).1
  · intro listed
    exact ⟨_,congrArg Reply.result (parametersOk tokens ended listed)⟩
  · intro names read
    exact (parametersPassed tokens ended read).2
  · intro e failed
    exact ⟨definitionFails kind named opens failed,parametersRefused tokens ended failed⟩
  · intro head inner passes
    obtain ⟨names,read,same⟩ := definitionPasses kind named opens passes
    obtain ⟨_,rfl,_⟩ := parametersPassed tokens ended read
    exact same

def jutsuToken : Token := ⟨.symbol .jutsuWord,none,⟨1,1⟩⟩

def functionToken : Token := ⟨.name,some "f",⟨1,7⟩⟩

def listToken : Token := ⟨.symbol .openParen,none,⟨1,8⟩⟩

def straight : List Token :=
  [⟨.name,some "a",⟨1,9⟩⟩,⟨.symbol .comma,none,⟨1,10⟩⟩,⟨.name,some "b",⟨1,12⟩⟩]

def crooked : List Token :=
  [⟨.name,some "a",⟨1,9⟩⟩,⟨.name,some "b",⟨1,11⟩⟩,⟨.symbol .comma,none,⟨1,12⟩⟩]

def behindList : List Token :=
  [⟨.symbol .closeParen,none,⟨1,13⟩⟩,⟨.symbol .openBrace,none,⟨1,15⟩⟩,
   ⟨.symbol .closeBrace,none,⟨1,17⟩⟩,Token.finish ⟨1,18⟩]

theorem crookedJudged :
    (parameters "f" ⟨straight ++ behindList,0⟩).after = ⟨behindList,0⟩ ∧
    sentence ⟨jutsuToken :: functionToken :: listToken :: (straight ++ behindList),0⟩ =
      (body ⟨behindList.tail,0⟩).map (fun statements => ⟨.definition,some "f",
        [Tree.leaf .identifier "a",Tree.leaf .identifier "b",⟨.body,none,statements⟩]⟩) ∧
    (sentence ⟨jutsuToken :: functionToken :: listToken :: (crooked ++ behindList),0⟩).result =
      .error (.badParameters "f" 2 1 ⟨1,9⟩) := by
  obtain ⟨_,listed,_,header⟩ := parametersJudged jutsuToken functionToken listToken straight behindList 0
    rfl rfl rfl (by decide) (by decide)
  obtain ⟨_,_,failed,_⟩ := parametersJudged jutsuToken functionToken listToken crooked behindList 0
    rfl rfl rfl (by decide) (by decide)
  exact ⟨(listed ["a","b"] rfl).2,header ⟨"f",["a","b"]⟩ ⟨behindList.tail,0⟩ rfl,
    (failed (.badParameters "f" 2 1 ⟨1,9⟩) rfl).1⟩

end JutsuSyntax.Cursor
