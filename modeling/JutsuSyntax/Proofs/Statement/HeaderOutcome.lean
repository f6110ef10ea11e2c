import JutsuSyntax.Proofs.Cursor.Blame
import JutsuSyntax.Proofs.Statement.Parameters
import Mathlib.Data.List.TakeWhile

/-! What reading the head of a definition gives. A parameter list is judged only behind it, so its
error is settled by the token there. -/
namespace JutsuSyntax
open Grammar (Parameters)

theorem Tally.ofRunMoved (place : Location → Location) (run : List Token) :
    ofRun (run.map (Token.moved place)) = ofRun run := by
  rw [ofRun,List.foldl_map,ofRun]
  rfl

namespace Cursor
variable {within : Nat → Prop} {ahead run rest : List Token} {token : Token}

inductive Heads : List Token → Header → Prop where
  | head {keyword name opening closing : Token} {tokens names}
      (kind : keyword.kind = .symbol .jutsuWord) (named : name.kind = .name)
      (opens : opening.kind = .symbol .openParen) (parameters : Parameters tokens names)
      (closes : closing.kind = .symbol .closeParen) :
      Heads (keyword :: name :: opening :: tokens ++ [closing]) ⟨name.payload,names⟩

theorem isParameterMoved (place) (token : Token) :
    isParameterToken (token.moved place) = isParameterToken token := rfl

theorem parameterUnended (h : isParameterToken token) : token.kind ≠ .finish := by
  intro ended
  simp [isParameterToken,ended] at h

theorem runMoved (place : Location → Location) (bodies : Nat) (only : ∀ x ∈ run, isParameterToken x)
    (last : isParameterToken token = false) (later : List Token) :
    parameterRun ⟨(run ++ [] ++ [token]).map (Token.moved place) ++ later,bodies⟩ =
        run.map (Token.moved place) ∧
      pastParameters ⟨(run ++ [] ++ [token]).map (Token.moved place) ++ later,bodies⟩ =
        ⟨([] ++ [token]).map (Token.moved place) ++ later,bodies⟩ := by
  have only' : ∀ x ∈ run.map (Token.moved place), isParameterToken x := by
    intro x member
    obtain ⟨y,inside,rfl⟩ := List.mem_map.mp member
    exact only y inside
  have split : (run ++ [] ++ [token]).map (Token.moved place) ++ later =
      run.map (Token.moved place) ++ (token.moved place :: later) := by simp
  rw [split]
  exact parametersCut only' (by simpa [isParameterMoved] using last)

def BadRun (function : String) (run back : List Token) (token : Token) (e : ParseError) : Prop :=
  back = [] ∧ ∃ names commas place, e = .badParameters function names commas place ∧
    (∀ x ∈ run, isParameterToken x) ∧ isParameterToken token = false ∧
    (run ++ [token]).head?.map Token.location = some place

theorem parametersOutcome (function : String) (ends : Ends ahead) :
    Outcome within (fun run _ names => Parameters run names) (BadRun function)
      (parameters function) ahead := by
  have whole : ahead.takeWhile isParameterToken ++ ahead.dropWhile isParameterToken = ahead :=
    List.takeWhile_append_dropWhile
  have only : ∀ x ∈ ahead.takeWhile isParameterToken, isParameterToken x :=
    fun x member => List.mem_takeWhile_imp member
  generalize ahead.takeWhile isParameterToken = run at whole only
  have unended : ∀ x ∈ run, x.kind ≠ .finish := fun x member => parameterUnended (only x member)
  obtain ⟨token,rest,behind⟩ := endsFilled (endsBehind (whole ▸ ends) unended)
  have last : isParameterToken token = false := by
    have := List.head?_dropWhile_not isParameterToken ahead
    simpa [behind] using this
  have same : ahead = run ++ token :: rest := by rw [← behind,whole]
  by_cases fine : (Tally.ofRun run).alternating && (Tally.ofRun run).balanced
  · obtain ⟨alternating,balanced⟩ := Bool.and_eq_true_iff.mp fine
    refine .passes same unended (fun n _ place later => ?_) (Tally.ofRunSound only alternating balanced)
    obtain ⟨taken,past⟩ := runMoved place n only last later
    rw [parameters,taken,past,Tally.ofRunMoved]
    exact if_pos fine
  · obtain ⟨first,others,front⟩ := endsFilled (same ▸ ends)
    obtain ⟨more,head⟩ := seenHead front.symm
    have judged : BadRun function run [] token (.badParameters function (Tally.ofRun run).names.length
        (Tally.ofRun run).commas first.location) :=
      ⟨rfl,_,_,_,rfl,only,last,by rw [head]; rfl⟩
    refine .fails (by simpa using same) (by simpa using unended) (fun n _ place later => ?_) judged
    obtain ⟨taken,past⟩ := runMoved place n only last later
    rw [parameters,taken,past,Tally.ofRunMoved]
    refine (if_neg fine).trans ?_
    rw [List.append_nil,head]
    rfl

theorem headerOutcome (ends : Ends ahead) :
    Reads within (fun _ _ => True) (fun passed _ head => Heads passed head)
      (fun tokens => ∃ head, Heads tokens head) header ahead := by
  let name : Token := ⟨.name,none,.start⟩
  let opening : Token := ⟨.symbol .openParen,none,.start⟩
  let closing : Token := ⟨.symbol .closeParen,none,.start⟩
  unfold header
  refine Outcome.expectThen ends (by simp) (fun _ _ _ => rfl) (fun _ _ _ => ⟨trivial,rfl,nofun⟩) ?_
  intro keyword rest _ kind later
  refine Outcome.expectThen later (by simp) (fun _ _ same => by simp only [same]) ?_ ?_
  · exact fun _ _ _ => ⟨trivial,rfl,fun _ => ⟨[name,opening,closing],_,.head kind rfl rfl .none rfl⟩⟩
  intro function rest _ named later
  refine Outcome.expectThen later (by simp) (fun _ _ _ => rfl) ?_ ?_
  · exact fun _ _ _ => ⟨trivial,rfl,fun _ => ⟨[opening,closing],_,.head kind named rfl .none rfl⟩⟩
  intro opening rest _ opens later
  refine Outcome.andThen (Outcome.weaken (parametersOutcome function.payload later)
    (fun _ _ _ _ _ fits => fits) ?_) ?_
  · intro run _ token rest e _ given
    obtain ⟨rfl,names,commas,place,rfl,only,last,first⟩ := given
    exact ⟨trivial,[],keyword,function,opening,run,by simp,kind,named,opens,rfl,only,last,first⟩
  · intro run token rest names same unended list
    refine Outcome.expectLast (endsBehind (same ▸ later) unended) (by simp) ?_ ?_
    · intro token rest _
      exact ⟨trivial,rfl,fun _ => ⟨[closing],_,by simpa using .head kind named opens list rfl⟩⟩
    · intro closing next rest _ closes
      simpa using .head kind named opens list closes

end Cursor
end JutsuSyntax
