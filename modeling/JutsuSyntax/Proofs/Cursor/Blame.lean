import JutsuSyntax.Proofs.Cursor.Outcome

/-! Errors that name the first token that cannot be right. The tokens before it are the front of
something that the grammar makes; with a parameter list, which is judged as a whole, the token is
the one behind the list. -/
namespace JutsuSyntax.Cursor
variable {α β : Type}

def EndsInParameters (function : String) (place : Location) (seen : List Token) (token : Token) :
    Prop :=
  ∃ before keyword name opening run,
    seen = before ++ keyword :: name :: opening :: run ∧ keyword.kind = .symbol .jutsuWord ∧
    name.kind = .name ∧ opening.kind = .symbol .openParen ∧ name.payload = function ∧
    (∀ x ∈ run, isParameterToken x) ∧ isParameterToken token = false ∧
    (run ++ [token]).head?.map Token.location = some place

/- That the seen tokens may be completed is said only if there are any: what stands before them
then settles whether they fit, not what comes behind. -/
def Blames (makes : List Token → Prop) (seen : List Token) (token : Token) : ParseError → Prop
  | .unexpected _ found | .noAlternative _ found =>
    found = token ∧ (seen ≠ [] → ∃ more, makes (seen ++ more))
  | .badParameters function _ _ place => EndsInParameters function place seen token

variable {makes made : List Token → Prop} {seen : List Token} {token : Token} {e : ParseError}

theorem EndsInParameters.behind {function place} (h : EndsInParameters function place seen token)
    (front : List Token) : EndsInParameters function place (front ++ seen) token := by
  obtain ⟨before,keyword,name,opening,run,same,others⟩ := h
  exact ⟨front ++ before,keyword,name,opening,run,by rw [same,List.append_assoc],others⟩

theorem Blames.weaken (h : Blames makes seen token e)
    (viable : seen ≠ [] → ∀ more, makes (seen ++ more) → ∃ more, made (seen ++ more)) :
    Blames made seen token e := by
  cases e with
  | badParameters => exact h
  | unexpected | noAlternative =>
    refine ⟨h.1,fun filled => ?_⟩
    obtain ⟨more,whole⟩ := h.2 filled
    exact viable filled more whole

theorem Blames.behind (front : List Token) (h : Blames (fun more => makes (front ++ more)) seen token e)
    (whole : ∃ more, makes (front ++ more)) : Blames makes (front ++ seen) token e := by
  cases e with
  | badParameters => exact EndsInParameters.behind h front
  | unexpected | noAlternative =>
    refine ⟨h.1,fun _ => ?_⟩
    by_cases filled : seen = []
    · rw [filled,List.append_nil]
      exact whole
    · obtain ⟨more,rest⟩ := h.2 filled
      exact ⟨more,by rwa [List.append_assoc]⟩

def Plain (back : List Token) (e : ParseError) : Prop :=
  back = [] ∧ ∀ function names commas place, e ≠ .badParameters function names commas place

theorem plainUnexpected (kind : Token.Kind) (token : Token) : Plain [] (.unexpected kind token) :=
  ⟨rfl,nofun⟩

theorem Blames.viable {back : List Token} (h : Blames makes seen token e) (plain : Plain back e)
    (filled : seen ≠ []) : ∃ more, makes (seen ++ more) := by
  cases e with
  | badParameters => exact absurd rfl (plain.2 _ _ _ _)
  | unexpected | noAlternative => exact h.2 filled

/- An outcome whose failures blame a token; `kept` says more of them and of the tokens that they
step back over. -/
abbrev Reads (within : Nat → Prop) (kept : List Token → ParseError → Prop) (good : List Token → Token → α → Prop)
    (makes : List Token → Prop) (production : Cursor → Parsed α) (ahead : List Token) : Prop :=
  Outcome within good (fun passed back token e => kept back e ∧ Blames makes (passed ++ back) token e)
    production ahead

namespace Reads
variable {within : Nat → Prop} {kept : List Token → ParseError → Prop} {good : List Token → Token → α → Prop}
  {p q : Cursor → Parsed α} {ahead rest : List Token} {next : Token}

theorem weaken {good' : List Token → Token → α → Prop} (h : Reads within kept good makes p ahead)
    (better : ∀ passed token rest value, ahead = passed ++ token :: rest →
      good passed token value → good' passed token value)
    (viable : ∀ tokens, tokens.head? = ahead.head? → ∀ more, makes (tokens ++ more) →
      ∃ more, made (tokens ++ more)) : Reads within kept good' made p ahead := by
  refine Outcome.weaken h better (fun passed back token rest e same fits => ⟨fits.1,?_⟩)
  refine fits.2.weaken (fun filled more whole => viable _ ?_ more whole)
  obtain ⟨first,others,seen⟩ := List.exists_cons_of_ne_nil filled
  rw [same,seen]
  rfl

theorem loosen (h : Reads within kept good makes p ahead) :
    Reads within (fun _ _ => True) good makes p ahead :=
  Outcome.weaken h (fun _ _ _ _ _ fits => fits) (fun _ _ _ _ _ _ fits => ⟨trivial,fits.2⟩)

theorem pass (more : token.kind ≠ .finish) (whole : ∃ more, makes (token :: more))
    (h : Reads within kept (fun passed => good (token :: passed)) (fun more => makes (token :: more))
      q (next :: rest))
    (step : ∀ c : Cursor, c.kind = token.kind → c.payload = token.payload →
      c.advance.kind = next.kind → p c = q c.advance) :
    Reads within kept good makes p (token :: next :: rest) := by
  refine Outcome.pass more (Outcome.weaken h (fun _ _ _ _ _ fits => fits) ?_) step
  exact fun passed back last rest e same fits => ⟨fits.1,fits.2.behind [token] whole⟩

theorem andThen {first : Cursor → Parsed β} {next : β → Cursor → Parsed α}
    {fair : List Token → Token → β → Prop} (h : Reads within kept fair made first ahead)
    (viable : ∀ tokens, tokens.head? = ahead.head? → ∀ more, made (tokens ++ more) →
      ∃ more, makes (tokens ++ more))
    (whole : ∀ passed token value, fair passed token value → ∃ more, makes (passed ++ more))
    (go : ∀ passed token rest value, ahead = passed ++ token :: rest → Ends (token :: rest) →
      fair passed token value → Reads within kept (fun more => good (passed ++ more))
        (fun more => makes (passed ++ more)) (next value) (token :: rest)) (ends : Ends ahead) :
    Reads within kept good makes (fun c => (first c).andThen next) ahead := by
  have begun := h.weaken (fun _ _ _ _ _ fits => fits) viable
  refine Outcome.andThen begun (fun passed token rest value same unended fits => ?_)
  have later := endsBehind (same ▸ ends) unended
  refine Outcome.weaken (go passed token rest value same later fits) (fun _ _ _ _ _ fits => fits) ?_
  intro more back last rest e _ blamed
  rw [List.append_assoc]
  exact ⟨blamed.1,blamed.2.behind passed (whole passed token value fits)⟩

theorem expectThen {kind : Token.Kind} {next : Token → Cursor → Parsed α} (ends : Ends ahead)
    (wanted : kind ≠ .finish) (none : ∀ token, kept [] (.unexpected kind token))
    (natural : ∀ a b : Token, a.payload = b.payload → next a = next b)
    (go : ∀ token rest, ahead = token :: rest → token.kind = kind → Ends rest →
      (∃ more, makes (token :: more)) ∧ Reads within kept (fun more => good (token :: more)) (fun more => makes (token :: more))
        (next token) rest) :
    Reads within kept good makes (fun c => (c.expect kind).andThen next) ahead := by
  refine Outcome.expectThen ends wanted natural (fun _ _ _ => ⟨none _,rfl,nofun⟩) ?_
  intro token rest whole same later
  obtain ⟨whole,h⟩ := go token rest whole same later
  refine Outcome.weaken h (fun _ _ _ _ _ fits => fits) (fun passed back last rest e _ blamed => ?_)
  exact ⟨blamed.1,blamed.2.behind [token] whole⟩

theorem expectLast {kind : Token.Kind} {value : α} (ends : Ends ahead) (wanted : kind ≠ .finish)
    (none : ∀ token, kept [] (.unexpected kind token))
    (fits : ∀ token next rest, ahead = token :: next :: rest → token.kind = kind →
      good [token] next value) :
    Reads within kept good makes (fun c => (c.expect kind).map (fun _ => value)) ahead :=
  Outcome.expectLast ends wanted (fun _ _ _ => ⟨none _,rfl,nofun⟩) fits

end Reads
end JutsuSyntax.Cursor
