import JutsuSyntax.Proofs.Program.Acceptance

/-! Where errors point. All tokens before the one that an error shows are the front of a program,
and with that token they are the front of none: the same error is given whatever follows. -/
namespace JutsuSyntax
open Cursor

variable {tokens before : List Token} {found : Token} {e : ParseError}

def ParseError.found? : ParseError → Option Token
  | unexpected _ found | noAlternative _ found => some found
  | badParameters .. => none

/-- An error is settled by the tokens up to the first one that no program goes on with; a
parameter list is judged at the token behind its run of names and commas. -/
theorem errorBlamesFirst (failed : parse tokens = .error e) :
    ∃ before found rest, complete tokens = before ++ found :: rest ∧
      (∀ x ∈ before, x.kind ≠ .finish) ∧
      (∀ later, parse (before ++ found :: later) = .error e) ∧
      (∀ token, e.found? = some token → token = found ∧ ∃ more t, parse (before ++ more) = .ok t) ∧
      (∀ function names commas place, e = .badParameters function names commas place →
        EndsInParameters function place before found) := by
  cases linesOutcome _ (completeEnds tokens) with
  | passes same unended settled fits =>
    rw [parseSettled settled (by simpa using same)] at failed
    contradiction
  | @fails passed back found rest e' same unended settled fits =>
    rw [parseSettled settled same] at failed
    cases failed
    obtain ⟨_,blamed⟩ := fits
    refine ⟨passed ++ back,found,rest,same,unended,fun later => ?_,fun token shown => ?_,?_⟩
    · obtain ⟨rest,whole⟩ := completeBehind (passed ++ back) found later
      exact parseSettled settled whole
    · have viable : ∃ more t, parse (passed ++ back ++ more) = .ok t := by
        by_cases filled : passed ++ back = []
        · exact ⟨[],_,wholeParse (by rw [filled]; exact .none)⟩
        · cases e with
          | badParameters => contradiction
          | unexpected | noAlternative =>
            obtain ⟨more,ts,lines⟩ := blamed.2 filled
            exact ⟨more,_,wholeParse lines⟩
      cases e with
      | badParameters => contradiction
      | unexpected | noAlternative =>
        cases shown
        exact ⟨blamed.1,viable⟩
    · intro function names commas place given
      obtain rfl := given
      exact blamed

def unclosed : List Token :=
  [⟨.symbol .printWord,none,⟨1,1⟩⟩,⟨.symbol .openParen,none,⟨1,7⟩⟩]

theorem unclosedBlamesEnd : parse unclosed = .error (.noAlternative .expression (Token.finish ⟨1,7⟩)) ∧
    ∃ before found rest, complete unclosed = before ++ found :: rest ∧
      (∀ x ∈ before, x.kind ≠ .finish) ∧
      (∀ later, parse (before ++ found :: later) =
        .error (.noAlternative .expression (Token.finish ⟨1,7⟩))) ∧
      Token.finish ⟨1,7⟩ = found ∧ ∃ more t, parse (before ++ more) = .ok t := by
  have failed : parse unclosed = .error (.noAlternative .expression (Token.finish ⟨1,7⟩)) := by
    decide +kernel
  obtain ⟨before,found,rest,same,unended,settled,shown,_⟩ := errorBlamesFirst failed
  exact ⟨failed,before,found,rest,same,unended,settled,shown _ rfl⟩

end JutsuSyntax
