import JutsuSyntax.Proofs.Program.Acceptance
import JutsuSyntax.Proofs.Statement.Law
import JutsuSyntax.Proofs.Reader.Statement

/-! No call of the parser looks outside its tokens or gets past their first end of input, and what
stands behind that makes no difference to any call. -/
namespace JutsuSyntax
open Cursor

variable {tokens passed : List Token} {c d : Cursor}

theorem Reader.ofTokensInside (tokens : List Token) : (ofTokens tokens).Inside := by
  obtain ⟨token,member,ended⟩ := completeEnds tokens
  exact ⟨Nat.zero_le _,List.findIdx_lt_length_of_exists ⟨token,member,decide_eq_true ended⟩⟩

theorem guardedSession (calls : Nat) {r : Reader} (inside : r.Inside) :
    Guarded.session Guarded.program calls r = some (Reply.session Cursor.program calls r.cursor) := by
  induction calls generalizing r with
  | zero => rfl
  | succ calls ih =>
    obtain ⟨next,run,cursor,_,behind⟩ := Agrees.program r inside
    rw [Guarded.session,run,Reply.session,← cursor]
    change (Guarded.session Guarded.program calls next).bind _ = _
    rw [ih behind]
    rfl

def cut : List Token → List Token
  | [] => []
  | token :: tokens => if token.kind = .finish then [token] else token :: cut tokens

theorem cutBehind (unended : ∀ x ∈ passed, x.kind ≠ .finish) : cut (passed ++ tokens) = passed ++ cut tokens := by
  induction passed with
  | nil => rfl
  | cons token passed ih =>
    obtain ⟨first,others⟩ := List.forall_mem_cons.mp unended
    rw [List.cons_append,cut,if_neg first,ih others,List.cons_append]

namespace Cursor

theorem cutAdvance (c : Cursor) : (onAhead cut c).advance = onAhead cut c.advance := by
  obtain ⟨ahead,bodies⟩ := c
  cases ahead with
  | nil => rfl
  | cons token tokens =>
    by_cases ended : token.kind = .finish
    · simp [advance,onAhead,cut,kind,current,ended]
    · simp [advance,onAhead,cut,kind,current,ended]

theorem cutFront : KeepsFront (onAhead cut) where
  current c := by
    obtain ⟨ahead,bodies⟩ := c
    cases ahead with
    | nil => rfl
    | cons token tokens =>
      rw [onAhead,cut]
      split <;> rfl
  advance _ := cutAdvance _

theorem Onward.even (h : Onward c d) : Even (onAhead cut) c d := by
  obtain ⟨passed,same,unended⟩ := h.passes
  simp only [Even,left,onAhead,same,cutBehind unended,List.length_append]
  omega

theorem cutStatements : StatementLaw (Commutes (onAhead cut)) :=
  cutFront.statements onwardLaw Onward.even (cutFront.skip (cutAdvance _))

theorem cutSession (calls : Nat) (c : Cursor) :
    Reply.session program calls (onAhead cut c) = Reply.session program calls c := by
  induction calls generalizing c with
  | zero => rfl
  | succ calls ih =>
    have read : Commutes (onAhead cut) Tree program c :=
      cutFront.commutes.map (cutStatements.statements c) Tree.program
    rw [Reply.session,read,ih,Reply.session]

theorem completeUnended (unended : ∀ x ∈ tokens, x.kind ≠ .finish) :
    ∃ place, complete tokens = tokens ++ [Token.finish place] := by
  unfold complete
  split
  · rename_i none
    exact ⟨_,by rw [List.getLast?_eq_none_iff.mp none]; rfl⟩
  · rename_i last same
    exact ⟨_,if_neg (unended last (List.mem_of_getLast? same))⟩

theorem cutComplete (tokens : List Token) : complete (cut tokens) = cut (complete tokens) := by
  have whole := List.takeWhile_append_dropWhile (p := Token.isWord) (l := tokens)
  have unended : ∀ x ∈ tokens.takeWhile Token.isWord, x.kind ≠ .finish := fun x member =>
    Token.isWordIff.mp (List.mem_takeWhile_imp member)
  have first := List.head?_dropWhile_not Token.isWord tokens
  generalize tokens.takeWhile Token.isWord = front at *
  cases behind : tokens.dropWhile Token.isWord with
  | nil =>
    obtain rfl : front = tokens := by simpa [behind] using whole
    obtain ⟨place,same⟩ := completeUnended unended
    have kept : cut front = front := by simpa [cut] using @cutBehind [] front unended
    rw [kept,same,cutBehind unended]
    rfl
  | cons found rest =>
    rw [behind] at first whole
    have ended : found.kind = .finish := by simpa [Token.isWord] using first
    obtain ⟨others,same⟩ := completeBehind front found rest
    rw [← whole,same,cutBehind unended,cutBehind unended]
    simp only [cut,if_pos ended]
    exact completeEnded ended

end Cursor

theorem callsStayInside (tokens : List Token) (calls : Nat) :
    Guarded.session Guarded.program calls (Reader.ofTokens tokens) =
      some (Reply.session Cursor.program calls (Cursor.ofTokens tokens)) ∧
    Reply.session Cursor.program calls (Cursor.ofTokens tokens) =
      Reply.session Cursor.program calls (Cursor.ofTokens (cut tokens)) := by
  refine ⟨guardedSession calls (Reader.ofTokensInside tokens),?_⟩
  rw [Cursor.ofTokens,Cursor.ofTokens,cutComplete]
  exact (cutSession calls _).symm

end JutsuSyntax
