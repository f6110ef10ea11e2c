import JutsuSyntax.Proofs.Program.Outcome
import Mathlib.Data.List.TakeWhile

/-! The parser accepts the grammar: no more, no less, and with the grammar's trees. Tokens behind
the first end of input play no part. -/
namespace JutsuSyntax
open Cursor

variable {tokens before rest : List Token} {found : Token} {t : Tree} {e : ParseError}

def Token.isWord (token : Token) : Bool := token.kind ≠ .finish

theorem Token.isWordIff {token : Token} : token.isWord ↔ token.kind ≠ .finish := by
  simp [isWord]

theorem completeEnds (tokens : List Token) : Ends (complete tokens) := by
  unfold complete
  split
  · exact ⟨_,List.mem_singleton_self _,rfl⟩
  · rename_i last same
    split
    · exact ⟨last,List.mem_of_getLast? same,‹_›⟩
    · exact ⟨_,List.mem_append_right _ (List.mem_singleton_self _),rfl⟩

theorem completeEnded {front : List Token} {last : Token} (ended : last.kind = .finish) :
    complete (front ++ [last]) = front ++ [last] := by
  unfold complete
  simp only [List.getLast?_concat]
  exact if_pos ended

theorem completeBehind (before : List Token) (found : Token) (later : List Token) :
    ∃ rest, complete (before ++ found :: later) = before ++ found :: rest := by
  unfold complete
  split
  · rename_i none
    simp at none
  · split
    · exact ⟨later,rfl⟩
    · exact ⟨_,by rw [List.append_assoc]; rfl⟩

theorem completeBefore (tokens : List Token) :
    (complete tokens).takeWhile Token.isWord = tokens.takeWhile Token.isWord := by
  have behind (place : Location) :
      (tokens ++ [Token.finish place]).takeWhile Token.isWord = tokens.takeWhile Token.isWord := by
    rw [List.takeWhile_append]
    split
    · rename_i whole
      rw [List.takeWhile_cons_of_neg (by simp [Token.isWord,Token.finish]),List.append_nil]
      exact ((List.takeWhile_prefix _).eq_of_length whole).symm
    · rfl
  unfold complete
  split
  · rename_i none
    rw [List.getLast?_eq_none_iff.mp none]
    rfl
  · split
    · rfl
    · exact behind _

theorem takeBefore (unended : ∀ x ∈ before, x.kind ≠ .finish) (ended : found.kind = .finish) :
    (before ++ found :: rest).takeWhile Token.isWord = before := by
  rw [List.takeWhile_append_of_pos (fun x member => Token.isWordIff.mpr (unended x member)),
    List.takeWhile_cons_of_neg (by simp [Token.isWord,ended]),List.append_nil]

theorem splitComplete (tokens : List Token) : ∃ found rest, found.kind = .finish ∧
    complete tokens = tokens.takeWhile Token.isWord ++ found :: rest := by
  have whole := List.takeWhile_append_dropWhile (p := Token.isWord) (l := complete tokens)
  have unended : ∀ x ∈ (complete tokens).takeWhile Token.isWord, x.kind ≠ .finish := by
    intro x member
    exact Token.isWordIff.mp (List.mem_takeWhile_imp member)
  have ends : Ends ((complete tokens).takeWhile Token.isWord ++
      (complete tokens).dropWhile Token.isWord) := by
    rw [whole]
    exact completeEnds tokens
  obtain ⟨found,rest,behind⟩ := endsFilled (endsBehind ends unended)
  have ended := List.head?_dropWhile_not Token.isWord (complete tokens)
  rw [behind] at ended whole
  refine ⟨found,rest,by simpa [Token.isWord] using ended,?_⟩
  rw [← completeBefore,whole]

theorem parseSettled {result : Except ParseError (List Tree)} {passed back : List Token}
    (settled : Settles (Inside false) statements passed back found result)
    (same : complete tokens = passed ++ back ++ found :: rest) :
    parse tokens = result.map Tree.program := by
  rw [parse,ofTokens,program,settled.here (n := 0) same rfl]
  rfl

theorem parseLines (accepted : parse tokens = .ok t) :
    ∃ ts, t = Tree.program ts ∧ Grammar.Lines (tokens.takeWhile Token.isWord) ts := by
  cases linesOutcome _ (completeEnds tokens) with
  | @passes passed found rest ts same unended settled fits =>
    rw [parseSettled settled (by simpa using same)] at accepted
    cases accepted
    refine ⟨ts,rfl,?_⟩
    rw [← completeBefore,same,takeBefore unended fits.2]
    exact fits.1
  | fails same unended settled fits =>
    rw [parseSettled settled same] at accepted
    contradiction

theorem linesParse {ts : List Tree} (lines : Grammar.Lines (tokens.takeWhile Token.isWord) ts) :
    parse tokens = .ok (Tree.program ts) := by
  obtain ⟨found,rest,ended,same⟩ := splitComplete tokens
  have read := linesRead lines (c := ⟨found :: rest,0⟩) (.inr ended)
  rw [statementsFinish (c := ⟨found :: rest,0⟩) ended] at read
  rw [parse,ofTokens,same]
  change (program ((⟨found :: rest,0⟩ : Cursor).back _)).result = _
  rw [program,read]
  simp [Reply.map,Except.map]

theorem takeWhole (unended : ∀ x ∈ tokens, x.kind ≠ .finish) :
    tokens.takeWhile Token.isWord = tokens :=
  List.takeWhile_eq_self_iff.mpr (fun x member => Token.isWordIff.mpr (unended x member))

theorem wholeParse {ts : List Tree} (lines : Grammar.Lines tokens ts) :
    parse tokens = .ok (Tree.program ts) :=
  linesParse (by rwa [takeWhole (Grammar.linesUnended lines)])

theorem parseAccepts (tokens : List Token) (t : Tree) :
    parse tokens = .ok t ↔ Grammar.Program (tokens.takeWhile (·.kind ≠ .finish)) t := by
  constructor
  · exact parseLines
  · intro given
    obtain ⟨ts,rfl,lines⟩ := given
    exact linesParse lines

end JutsuSyntax
