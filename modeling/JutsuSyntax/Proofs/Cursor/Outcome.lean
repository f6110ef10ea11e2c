import JutsuSyntax.Statement.Reading

/-! What productions look at. A production passes some tokens and stops at one, and these tokens
settle what it gives: not their places, nor what comes behind them, nor how many bodies are open.
An outcome says so and says what holds of a success and of a failure; there is a rule for each
way of putting productions together. -/
namespace JutsuSyntax

def Location.nowhere (_ : Location) : Location := .start

def Token.moved (place : Location → Location) (token : Token) : Token :=
  {token with location := place token.location}

def ParseError.moved (place : Location → Location) : ParseError → ParseError
  | unexpected expected found => unexpected expected (found.moved place)
  | noAlternative context found => noAlternative context (found.moved place)
  | badParameters function names commas location =>
    badParameters function names commas (place location)

@[simp] theorem mapErrorOk {ε ε' α : Type} (f : ε → ε') (a : α) :
    (Except.ok a : Except ε α).mapError f = .ok a := rfl

@[simp] theorem mapErrorError {ε ε' α : Type} (f : ε → ε') (e : ε) :
    (Except.error e : Except ε α).mapError f = .error (f e) := rfl

theorem mapErrorMap {ε ε' α β : Type} (f : ε → ε') (g : α → β) (r : Except ε α) :
    (r.map g).mapError f = (r.mapError f).map g := by
  cases r <;> rfl

@[simp] theorem Token.movedKind (place) (token : Token) : (token.moved place).kind = token.kind := rfl

@[simp] theorem Token.movedId (token : Token) : token.moved id = token := rfl

@[simp] theorem ParseError.movedId (e : ParseError) : e.moved id = e := by cases e <;> rfl

namespace Cursor
variable {α β : Type}

/-- In every number of bodies that counts, with the tokens at any places and anything behind them,
the production gives this result and stops before `back`. -/
def Settles (within : Nat → Prop) (production : Cursor → Parsed α) (passed back : List Token)
    (token : Token) (result : Except ParseError α) : Prop :=
  ∀ bodies, within bodies → ∀ place later,
    production ⟨(passed ++ back ++ [token]).map (Token.moved place) ++ later,bodies⟩ =
      ⟨result.mapError (ParseError.moved place),
        ⟨(back ++ [token]).map (Token.moved place) ++ later,bodies⟩⟩

theorem Settles.here {within : Nat → Prop} {production : Cursor → Parsed α} {ahead passed back rest : List Token}
    {token : Token} {result : Except ParseError α} {n : Nat}
    (settled : Settles within production passed back token result)
    (same : ahead = passed ++ back ++ token :: rest) (counts : within n) :
    production ⟨ahead,n⟩ = ⟨result,⟨back ++ token :: rest,n⟩⟩ := by
  have read := settled n counts id rest
  have ids : Token.moved id = id := funext Token.movedId
  have whole : passed ++ back ++ [token] ++ rest = ahead := by simp [same]
  rw [ids,List.map_id,List.map_id,whole] at read
  cases result <;> simpa using read

/- A failure may step back: then `back` are the tokens seen that are ahead again. -/
inductive Outcome (within : Nat → Prop) (good : List Token → Token → α → Prop)
    (bad : List Token → List Token → Token → ParseError → Prop) (production : Cursor → Parsed α)
    (ahead : List Token) : Prop where
  | passes {passed token rest value} (same : ahead = passed ++ token :: rest)
      (unended : ∀ x ∈ passed, x.kind ≠ .finish)
      (settled : Settles within production passed [] token (.ok value))
      (fits : good passed token value) : Outcome within good bad production ahead
  | fails {passed back token rest e} (same : ahead = passed ++ back ++ token :: rest)
      (unended : ∀ x ∈ passed ++ back, x.kind ≠ .finish)
      (settled : Settles within production passed back token (.error e))
      (fits : bad passed back token e) : Outcome within good bad production ahead

def Ends (ahead : List Token) : Prop := ∃ token ∈ ahead, token.kind = .finish

theorem endsBehind {passed rest : List Token} (ends : Ends (passed ++ rest))
    (unended : ∀ x ∈ passed, x.kind ≠ .finish) : Ends rest := by
  obtain ⟨token,member,kind⟩ := ends
  rcases List.mem_append.mp member with before | behind
  · exact absurd kind (unended token before)
  · exact ⟨token,behind,kind⟩

theorem endsPast {token : Token} {rest : List Token} (ends : Ends (token :: rest))
    (more : token.kind ≠ .finish) : Ends rest :=
  @endsBehind [token] rest ends (by simpa using more)

theorem endsFilled {ahead : List Token} (ends : Ends ahead) : ∃ token rest, ahead = token :: rest := by
  obtain ⟨token,member,_⟩ := ends
  exact List.exists_cons_of_ne_nil (List.ne_nil_of_mem member)

theorem endsShorter {ahead : List Token} (ends : Ends ahead) :
    ∃ token rest, ahead = token :: rest ∧ rest.length < ahead.length := by
  obtain ⟨token,rest,same⟩ := endsFilled ends
  exact ⟨token,rest,same,by simp [same]⟩

theorem behindShorter {ahead passed rest : List Token} {token : Token}
    (same : ahead = passed ++ token :: rest) : rest.length < ahead.length := by
  rw [same,List.length_append,List.length_cons]
  omega

theorem passedShorter {ahead passed rest : List Token} {token : Token}
    (same : ahead = passed ++ token :: rest) (filled : passed ≠ []) :
    (token :: rest).length < ahead.length := by
  have passing := List.length_pos_iff.mpr filled
  rw [same,List.length_append]
  omega

theorem seenHead {first token : Token} {others passed rest}
    (same : first :: others = passed ++ token :: rest) :
    ∃ more, passed ++ [token] = first :: more := by
  cases passed with
  | nil =>
    cases same
    exact ⟨[],rfl⟩
  | cons x xs =>
    cases same
    exact ⟨xs ++ [token],rfl⟩

namespace Outcome
variable {within : Nat → Prop} {good : List Token → Token → α → Prop}
  {bad : List Token → List Token → Token → ParseError → Prop} {p q : Cursor → Parsed α}
  {ahead rest : List Token} {token next : Token}

theorem weaken {good' : List Token → Token → α → Prop}
    {bad' : List Token → List Token → Token → ParseError → Prop}
    (h : Outcome within good bad p ahead)
    (better : ∀ passed token rest value, ahead = passed ++ token :: rest →
      good passed token value → good' passed token value)
    (worse : ∀ passed back token rest e, ahead = passed ++ back ++ token :: rest →
      bad passed back token e → bad' passed back token e) :
    Outcome within good' bad' p ahead := by
  cases h with
  | passes same unended settled fits =>
    exact .passes same unended settled (better _ _ _ _ same fits)
  | fails same unended settled fits =>
    exact .fails same unended settled (worse _ _ _ _ _ same fits)

theorem narrow {within' : Nat → Prop} (h : Outcome within good bad p ahead)
    (fewer : ∀ n, within' n → within n) : Outcome within' good bad p ahead := by
  cases h with
  | passes same unended settled fits =>
    exact .passes same unended (fun n counts => settled n (fewer n counts)) fits
  | fails same unended settled fits =>
    exact .fails same unended (fun n counts => settled n (fewer n counts)) fits

theorem congr (h : Outcome within good bad q (token :: rest))
    (agree : ∀ c : Cursor, c.kind = token.kind → c.payload = token.payload →
      p c = q c) : Outcome within good bad p (token :: rest) := by
  cases h with
  | passes same unended settled fits =>
    refine .passes same unended (fun n counts place later => ?_) fits
    rw [← settled n counts place later]
    obtain ⟨more,seen⟩ := seenHead same
    rw [List.append_nil,seen]
    exact agree _ rfl rfl
  | fails same unended settled fits =>
    refine .fails same unended (fun n counts place later => ?_) fits
    rw [← settled n counts place later]
    obtain ⟨more,seen⟩ := seenHead same
    rw [seen]
    exact agree _ rfl rfl

theorem stay {value : α} (fits : good [] token value) :
    Outcome within good bad (fun c => ⟨.ok value,c⟩) (token :: rest) :=
  .passes (List.nil_append _).symm nofun (fun _ _ _ _ => rfl) fits

theorem refuse {f : Token → ParseError} (fits : bad [] [] token (f token))
    (natural : ∀ place found, (f found).moved place = f (found.moved place)) :
    Outcome within good bad (fun c => ⟨.error (f c.current),c⟩) (token :: rest) := by
  refine .fails (List.nil_append _).symm (by simp) (fun _ _ place _ => ?_) fits
  simp only [mapErrorError,natural]
  rfl

theorem pass (more : token.kind ≠ .finish)
    (h : Outcome within (fun passed => good (token :: passed))
      (fun passed => bad (token :: passed)) q (next :: rest))
    (step : ∀ c : Cursor, c.kind = token.kind → c.payload = token.payload →
      c.advance.kind = next.kind → p c = q c.advance) :
    Outcome within good bad p (token :: next :: rest) := by
  have moved {n place} {others later : List Token} :
      p ⟨token.moved place :: next.moved place :: others ++ later,n⟩ =
        q ⟨next.moved place :: others ++ later,n⟩ := by
    have passed : (⟨token.moved place :: next.moved place :: others ++ later,n⟩ : Cursor).advance =
        ⟨next.moved place :: others ++ later,n⟩ := if_neg more
    rw [step _ rfl rfl (by rw [passed]; rfl),passed]
  cases h with
  | passes same unended settled fits =>
    refine .passes (congrArg (token :: ·) same) ?_ (fun n counts place later => ?_) fits
    · simpa using ⟨more,unended⟩
    · rw [← settled n counts place later]
      obtain ⟨others,seen⟩ := seenHead same
      simp only [List.append_nil,List.cons_append,List.map_cons,seen]
      exact moved
  | fails same unended settled fits =>
    refine .fails (congrArg (token :: ·) same) ?_ (fun n counts place later => ?_) fits
    · rw [List.cons_append]
      exact List.forall_mem_cons.mpr ⟨more,unended⟩
    · rw [← settled n counts place later]
      obtain ⟨others,seen⟩ := seenHead same
      simp only [List.cons_append,List.map_cons,seen]
      exact moved

theorem map {f : β → α} {p : Cursor → Parsed β}
    (h : Outcome within (fun passed token value => good passed token (f value)) bad p ahead) :
    Outcome within good bad (fun c => (p c).map f) ahead := by
  cases h with
  | passes same unended settled fits =>
    refine .passes same unended (fun n counts place later => ?_) fits
    rw [settled n counts place later]
    rfl
  | fails same unended settled fits =>
    refine .fails same unended (fun n counts place later => ?_) fits
    rw [settled n counts place later]
    rfl

theorem andThen {first : Cursor → Parsed β} {next : β → Cursor → Parsed α}
    {fair : List Token → Token → β → Prop}
    (h : Outcome within fair bad first ahead)
    (go : ∀ passed token rest value, ahead = passed ++ token :: rest →
      (∀ x ∈ passed, x.kind ≠ .finish) → fair passed token value →
      Outcome within (fun more => good (passed ++ more)) (fun more => bad (passed ++ more))
        (next value) (token :: rest)) :
    Outcome within good bad (fun c => (first c).andThen next) ahead := by
  cases h with
  | fails same unended settled fits =>
    refine .fails same unended (fun n counts place later => ?_) fits
    rw [settled n counts place later]
    rfl
  | @passes passed token rest value same unended settled fits =>
    have begun {n place} {seen others later : List Token} (counts : within n)
        (head : seen = token :: others) :
        (first ⟨(passed ++ seen).map (Token.moved place) ++ later,n⟩).andThen next =
          next value ⟨seen.map (Token.moved place) ++ later,n⟩ := by
      have read := settled n counts place (others.map (Token.moved place) ++ later)
      have joined : (passed ++ seen).map (Token.moved place) ++ later =
          (passed ++ [] ++ [token]).map (Token.moved place) ++
            (others.map (Token.moved place) ++ later) := by simp [head]
      rw [joined,read,head]
      simp [Reply.andThen]
    cases go passed token rest value same unended fits with
    | @passes more last rest' w same' unended' settled' fits' =>
      obtain ⟨others,head⟩ := seenHead same'
      have whole : ahead = passed ++ more ++ last :: rest' := by
        rw [same,same',List.append_assoc]
      refine .passes whole ?_ (fun n counts place later => ?_) fits'
      · simpa [or_imp,forall_and] using ⟨unended,unended'⟩
      · rw [List.append_nil,List.append_assoc,begun counts head]
        simpa using settled' n counts place later
    | @fails more back last rest' e same' unended' settled' fits' =>
      obtain ⟨others,head⟩ := seenHead same'
      have whole : ahead = passed ++ more ++ back ++ last :: rest' := by
        rw [same,same']
        simp
      refine .fails whole ?_ (fun n counts place later => ?_) fits'
      · simp only [List.mem_append,or_imp,forall_and] at *
        exact ⟨⟨unended,unended'.1⟩,unended'.2⟩
      · rw [List.append_assoc passed,List.append_assoc passed,begun counts head]
        exact settled' n counts place later

theorem expectThen {kind : Token.Kind} {next : Token → Cursor → Parsed α} (ends : Ends ahead)
    (wanted : kind ≠ .finish) (natural : ∀ a b : Token, a.payload = b.payload → next a = next b)
    (refused : ∀ token rest, ahead = token :: rest → bad [] [] token (.unexpected kind token))
    (go : ∀ token rest, ahead = token :: rest → token.kind = kind → Ends rest →
      Outcome within (fun more => good (token :: more)) (fun more => bad (token :: more))
        (next token) rest) :
    Outcome within good bad (fun c => (c.expect kind).andThen next) ahead := by
  obtain ⟨token,rest,rfl⟩ := endsFilled ends
  by_cases same : token.kind = kind
  · have more : token.kind ≠ .finish := same ▸ wanted
    have later : Ends rest := endsPast ends more
    have h := go token rest rfl same later
    obtain ⟨second,others,rfl⟩ := endsFilled later
    refine pass more h (fun c kind' payload' _ => ?_)
    rw [expect,if_pos (kind'.trans same)]
    exact congrFun (natural _ _ payload') _
  · refine congr (refuse (refused token rest rfl) (fun _ _ => rfl)) (fun c kind' _ => ?_)
    rw [expect,if_neg (by rwa [kind'])]
    rfl

theorem expectLast {kind : Token.Kind} {value : α} (ends : Ends ahead) (wanted : kind ≠ .finish)
    (refused : ∀ token rest, ahead = token :: rest → bad [] [] token (.unexpected kind token))
    (fits : ∀ token next rest, ahead = token :: next :: rest → token.kind = kind →
      good [token] next value) :
    Outcome within good bad (fun c => (c.expect kind).map (fun _ => value)) ahead := by
  have steps : (fun c : Cursor => (c.expect kind).map (fun _ => value)) =
      fun c => (c.expect kind).andThen (fun _ d => ⟨.ok value,d⟩) := by
    funext c
    unfold expect
    split <;> rfl
  rw [steps]
  refine expectThen ends wanted (fun _ _ _ => rfl) refused (fun token rest same kind later => ?_)
  obtain ⟨second,others,rfl⟩ := endsFilled later
  exact stay (fits token second others same kind)

theorem inBody (h : Outcome (0 < ·) good bad p ahead) :
    Outcome within good bad (fun c => leaveBody (p c.enterBody)) ahead := by
  cases h with
  | passes same unended settled fits =>
    refine .passes same unended (fun n _ place later => ?_) fits
    simp only [enterBody,settled (n + 1) (Nat.succ_pos n) place later,leaveBody]
    rfl
  | fails same unended settled fits =>
    refine .fails same unended (fun n _ place later => ?_) fits
    simp only [enterBody,settled (n + 1) (Nat.succ_pos n) place later,leaveBody]
    rfl

end Outcome
end Cursor
end JutsuSyntax
