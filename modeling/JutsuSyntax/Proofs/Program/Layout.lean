import JutsuSyntax.Proofs.Program.Joining
import JutsuSyntax.Proofs.Statement.Law
import JutsuSyntax.Proofs.Statement.Thinning

/-! Layout does not matter to programs. Blank lines leave no trace, and places are written into
errors only: two texts with the same tokens otherwise have the same tree or the same error. -/
namespace JutsuSyntax
open Cursor

namespace Cursor

theorem statementsThinned (tokens : List Token) :
    (statements ⟨thinned true tokens,0⟩).result = (statements ⟨tokens,0⟩).result := by
  have front := skipsAll (fun _ => statementsNewline) ⟨tokens,0⟩
  have thins := congrArg Reply.result (thinStatements.statements (pastNewlines ⟨tokens,0⟩))
  rw [thinnedBehind,front]
  exact thins

end Cursor

variable {tokens : List Token}

theorem statementsForgotten (ends : Ends tokens) :
    (statements ⟨(thinned true tokens).map (Token.moved .nowhere),0⟩).result =
      (statements ⟨tokens,0⟩).result.mapError (ParseError.moved .nowhere) := by
  rw [← thinnedMoved,statementsThinned,statementsMoved .nowhere ends]

def Token.content (token : Token) : Token.Kind × Option String := (token.kind,token.lexeme)

theorem movedContent (tokens : List Token) : tokens.map (Token.moved .nowhere) =
    (tokens.map Token.content).map (fun content => ⟨content.1,content.2,.start⟩) := by
  rw [List.map_map]
  rfl

def unblanked (tokens : List Token) : List Token := thinned false (tokens.dropWhile Token.isNewline)

theorem parseUnblanked {front others : List Token} {last final : Token} (ended : last.kind = .finish)
    (closed : final.kind = .finish)
    (alike : (unblanked (front ++ [last])).map Token.content =
      (unblanked (others ++ [final])).map Token.content) :
    (parse (front ++ [last])).mapError (ParseError.moved .nowhere) =
      (parse (others ++ [final])).mapError (ParseError.moved .nowhere) := by
  have same : (thinned true (front ++ [last])).map (Token.moved .nowhere) =
      (thinned true (others ++ [final])).map (Token.moved .nowhere) := by
    rw [movedContent,movedContent,thinnedBehind,thinnedBehind]
    exact congrArg _ alike
  have here : Ends (front ++ [last]) := ⟨last,by simp,ended⟩
  have there : Ends (others ++ [final]) := ⟨final,by simp,closed⟩
  rw [parseStatements ended,parseStatements closed,mapErrorMap,mapErrorMap,← statementsForgotten here,
    ← statementsForgotten there,same]

theorem blanksForgotten (a b : String) (as bs : List Token) (read : tokenize a = .ok as)
    (again : tokenize b = .ok bs)
    (alike : (unblanked as).map Token.content = (unblanked bs).map Token.content) :
    (∃ t, parseText a = .ok t ∧ parseText b = .ok t) ∨
      ∃ e f, parseText a = .error e ∧ parseText b = .error f ∧ e.moved .nowhere = f.moved .nowhere := by
  obtain ⟨front,last,rfl,ended,_⟩ := tokenizeEnds read
  obtain ⟨others,final,rfl,closed,_⟩ := tokenizeEnds again
  have same := parseUnblanked ended closed alike
  rw [parseText,parseText,read,again]
  dsimp only
  cases first : parse (front ++ [last]) with
  | ok t =>
    cases second : parse (others ++ [final]) with
    | ok u =>
      rw [first,second] at same
      exact .inl ⟨t,rfl,congrArg Except.ok (Except.ok.inj same).symm⟩
    | error f =>
      rw [first,second] at same
      contradiction
  | error e =>
    cases second : parse (others ++ [final]) with
    | ok u =>
      rw [first,second] at same
      contradiction
    | error f =>
      rw [first,second] at same
      exact .inr ⟨_,_,rfl,rfl,congrArg SyntaxError.grammatical (Except.error.inj same)⟩

def close : String := "x\n\n)"

def spread : String := "# one\n\nx \n )"

def closeTokens : List Token :=
  [⟨.name,some "x",⟨1,1⟩⟩,⟨.newline,none,⟨1,2⟩⟩,⟨.newline,none,⟨2,1⟩⟩,
   ⟨.symbol .closeParen,none,⟨3,1⟩⟩,Token.finish ⟨3,2⟩]

def spreadTokens : List Token :=
  [⟨.newline,none,⟨2,1⟩⟩,⟨.name,some "x",⟨3,1⟩⟩,⟨.newline,none,⟨3,3⟩⟩,
   ⟨.symbol .closeParen,none,⟨4,2⟩⟩,Token.finish ⟨4,3⟩]

theorem spreadFailsAlike : tokenize close = .ok closeTokens ∧ tokenize spread = .ok spreadTokens ∧
    (unblanked closeTokens).map Token.content = (unblanked spreadTokens).map Token.content ∧
    ((∃ t, parseText close = .ok t ∧ parseText spread = .ok t) ∨
      ∃ e f, parseText close = .error e ∧ parseText spread = .error f ∧
        e.moved .nowhere = f.moved .nowhere) := by
  have read : tokenize close = .ok closeTokens := by decide +kernel
  have again : tokenize spread = .ok spreadTokens := by decide +kernel
  exact ⟨read,again,rfl,blanksForgotten close spread closeTokens spreadTokens read again rfl⟩

end JutsuSyntax
