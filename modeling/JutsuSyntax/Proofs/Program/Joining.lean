import JutsuSyntax.Proofs.Program.Acceptance
import JutsuSyntax.Proofs.Program.Balance
import JutsuSyntax.Proofs.Token.Joining

/-! Programs one behind the other. A text behind a program and two newlines is read as it would be
alone, only further down. -/
namespace JutsuSyntax
open Cursor

variable {tokens front others lines : List Token} {ts : List Tree}

def SyntaxError.moved (place : Location → Location) : SyntaxError → SyntaxError
  | lexical e => lexical (e.moved place)
  | grammatical e => grammatical (e.moved place)

theorem statementsMoved (place : Location → Location) (ends : Ends tokens) :
    (statements ⟨tokens.map (Token.moved place),0⟩).result =
      (statements ⟨tokens,0⟩).result.mapError (ParseError.moved place) := by
  have settle {passed back : List Token} {token rest} {result : Except ParseError (List Tree)}
      (settled : Settles (Inside false) statements passed back token result)
      (same : tokens = passed ++ back ++ token :: rest) :
      (statements ⟨tokens.map (Token.moved place),0⟩).result =
        (statements ⟨tokens,0⟩).result.mapError (ParseError.moved place) := by
    have there := settled 0 rfl place (rest.map (Token.moved place))
    rw [← List.map_append] at there
    have whole : passed ++ back ++ [token] ++ rest = tokens := by simp [same]
    rw [whole] at there
    rw [settled.here (n := 0) same rfl,there]
  cases linesOutcome tokens ends with
  | passes same unended settled fits => exact settle settled (by simpa using same)
  | fails same unended settled fits => exact settle settled same

theorem statementsBehindLines (first : Grammar.Lines front ts) (newlines : ∀ x ∈ lines, x.kind = .newline)
    (filled : lines ≠ []) : (statements ⟨front ++ lines ++ others,0⟩).result =
      (statements ⟨others,0⟩).result.map (ts ++ ·) := by
  have passed : statements ⟨lines ++ others,0⟩ = statements ⟨others,0⟩ := by
    clear filled
    induction lines with
    | nil => rfl
    | cons newline lines ih =>
      obtain ⟨kind,rest⟩ := List.forall_mem_cons.mp newlines
      rw [← ih rest]
      exact (statementsNewline (c := ⟨newline :: (lines ++ others),0⟩) kind).trans
        (congrArg statements (@backNewline ⟨lines ++ others,0⟩ newline [] kind))
  obtain ⟨newline,more,rfl⟩ := List.exists_cons_of_ne_nil filled
  have kind := newlines newline List.mem_cons_self
  have read := linesRead first (c := ⟨newline :: more ++ others,0⟩) (.inl kind)
  rw [passed] at read
  rw [List.append_assoc]
  exact congrArg Reply.result read

theorem parseStatements {last : Token} (ended : last.kind = .finish) :
    parse (front ++ [last]) = (statements ⟨front ++ [last],0⟩).result.map Tree.program := by
  rw [parse,ofTokens,completeEnded ended]
  rfl

theorem parseMoved (place : Location → Location) {last : Token} (ended : last.kind = .finish) :
    parse ((front ++ [last]).map (Token.moved place)) =
      (parse (front ++ [last])).mapError (ParseError.moved place) := by
  have ends : Ends (front ++ [last]) := ⟨last,by simp,ended⟩
  have moved := statementsMoved place ends
  rw [List.map_append] at moved ⊢
  rw [List.map_singleton] at moved ⊢
  rw [parseStatements (by simpa using ended),parseStatements ended,moved,mapErrorMap]

def linesBefore (text : String) : Nat := text.toList.count '\n' + 2

theorem placeBehind (a : String) :
    ((Location.start.afterText a.toList).after '\n').after '\n' =
      Location.start.down (linesBefore a) := by
  have place : Location.start.afterText a.toList = Location.behind a.toList :=
    Location.afterTextBehind [] a.toList
  rw [place]
  simp [Location.after,Location.behind,Location.down,Location.start,linesBefore,Nat.add_assoc]

theorem tokenizeBehind {a : String} (read : tokenize a = .ok tokens)
    (closed : ∀ front last, tokens = front ++ [last] → Grammar.Balanced front) :
    ∃ front last lines, tokens = front ++ [last] ∧ last.kind = .finish ∧
      (∀ x ∈ front, x.kind ≠ .finish) ∧ lines ≠ [] ∧ (∀ x ∈ lines, x.kind = .newline) ∧
      ∀ b, tokenize (a ++ "\n\n" ++ b) =
        ((tokenize b).map (fun later => front ++ lines ++
          later.map (Token.moved (Location.down (linesBefore a))))).mapError
          (LexError.moved (Location.down (linesBefore a))) := by
  obtain ⟨front,place,lines,same,words,newlines,onward⟩ := scanOnward (Scanner.ofText a) read
  let newline : Token := ⟨.newline,none,(Location.start.afterText a.toList).after '\n'⟩
  refine ⟨front,_,lines ++ [newline],same,rfl,words,by simp,?_,fun b => ?_⟩
  · intro x member
    rcases List.mem_append.mp member with before | last
    · exact newlines x before
    · rw [List.mem_singleton.mp last]
  · have depth : front.foldl Token.depthPast 0 = 0 := closed front _ same 0
    have text : (a ++ "\n\n" ++ b).toList = a.toList ++ '\n' :: '\n' :: b.toList := by simp
    have whole := onward ('\n' :: b.toList)
    simp only [Scanner.ofText,depth] at whole
    rw [newlineScan,placeBehind] at whole
    have down := Scanner.downScan (linesBefore a) (Scanner.ofText b)
    rw [tokenize,Scanner.ofText,text,whole]
    simp only [Reply.map,tokenize]
    change Except.map _ (Except.map _ ((Scanner.ofText b).down (linesBefore a)).scan.result) = _
    rw [down]
    cases (Scanner.ofText b).scan.result with
    | error e => rfl
    | ok later => simp [Except.map,newline]

theorem parseBehind {back : List Token} {last : Token} (place : Location → Location)
    (first : Grammar.Lines front ts) (newlines : ∀ x ∈ lines, x.kind = .newline)
    (filled : lines ≠ []) (ended : last.kind = .finish) :
    parse (front ++ lines ++ (back ++ [last]).map (Token.moved place)) =
      ((statements ⟨back ++ [last],0⟩).result.mapError (ParseError.moved place)).map
        (fun us => Tree.program (ts ++ us)) := by
  have ends : Ends (back ++ [last]) := ⟨last,by simp,ended⟩
  have behind := @statementsBehindLines front ((back ++ [last]).map (Token.moved place)) lines ts
    first newlines filled
  rw [statementsMoved place ends] at behind
  rw [List.map_append,List.map_singleton,← List.append_assoc] at *
  rw [parseStatements (by simpa using ended),behind]
  cases (statements ⟨back ++ [last],0⟩).result <;> rfl

theorem parseTextProgram {text : String} {t : Tree} (accepted : parseText text = .ok t) :
    ∃ front last ts, tokenize text = .ok (front ++ [last]) ∧ last.kind = .finish ∧
      t = Tree.program ts ∧ Grammar.Lines front ts := by
  cases lexed : tokenize text with
  | error e => simp [parseText,lexed] at accepted
  | ok tokens =>
    obtain ⟨front,last,rfl,ended,words⟩ := tokenizeEnds lexed
    cases parsed : parse (front ++ [last]) with
    | error e => simp [parseText,lexed,parsed] at accepted
    | ok u =>
      simp only [parseText,lexed,parsed,mapErrorOk] at accepted
      cases accepted
      obtain ⟨ts,rfl,lines⟩ := parseLines parsed
      rw [takeBefore words ended] at lines
      exact ⟨front,last,ts,rfl,ended,rfl,lines⟩

theorem parseTextBehind {a : String} (first : parseText a = .ok (Tree.program ts)) (b : String) :
    parseText (a ++ "\n\n" ++ b) = match parseText b with
      | .ok t => .ok (Tree.program (ts ++ t.children))
      | .error e => .error (e.moved (Location.down (linesBefore a))) := by
  obtain ⟨before,final,us,lexed,_,same,program⟩ := parseTextProgram first
  cases same
  have closed : ∀ front last, before ++ [final] = front ++ [last] → Grammar.Balanced front := by
    intro front last same
    obtain ⟨rfl,_⟩ := List.append_inj' same rfl
    exact Grammar.linesBalanced program
  obtain ⟨front,last,lines,same,ended,words,filled,newlines,behind⟩ := tokenizeBehind lexed closed
  obtain ⟨rfl,_⟩ := List.append_inj' same rfl
  unfold parseText
  rw [behind b]
  cases later : tokenize b with
  | error e => rfl
  | ok us =>
    obtain ⟨back,final,rfl,finish,_⟩ := tokenizeEnds later
    simp only [Except.map,mapErrorOk]
    rw [parseBehind (Location.down (linesBefore a)) program newlines filled finish,parseStatements finish]
    cases (statements ⟨back ++ [final],0⟩).result <;> rfl

theorem parseTextJoins (a b : String) (ts : List Tree) (first : parseText a = .ok (Tree.program ts)) :
    (∀ us, parseText b = .ok (Tree.program us) →
      parseText (a ++ "\n\n" ++ b) = .ok (Tree.program (ts ++ us))) ∧
    ∀ e, parseText b = .error e →
      parseText (a ++ "\n\n" ++ b) = .error (e.moved (Location.down (a.toList.count '\n' + 2))) := by
  have joined := parseTextBehind first b
  constructor
  · intro us second
    rw [joined,second]
    rfl
  · intro e failed
    rw [joined,failed]
    rfl

theorem commentJoins :
    let x := Tree.expression (Tree.identifier "x")
    let y := Tree.expression (Tree.identifier "y")
    parseText "x # one" = .ok (Tree.program [x]) ∧ parseText "y" = .ok (Tree.program [y]) ∧
      parseText ("x # one" ++ "\n\n" ++ "y") = .ok (Tree.program [x,y]) ∧
      parseText ("x # one" ++ "\n\n" ++ "?") = .error (.lexical (.unreadable '?' ⟨3,1⟩)) := by
  intro x y
  have first : parseText "x # one" = .ok (Tree.program [x]) := by decide +kernel
  have second : parseText "y" = .ok (Tree.program [y]) := by decide +kernel
  have unread : parseText "?" = .error (.lexical (.unreadable '?' ⟨1,1⟩)) := by decide +kernel
  obtain ⟨both,_⟩ := parseTextJoins "x # one" "y" [x] first
  obtain ⟨_,failed⟩ := parseTextJoins "x # one" "?" [x] first
  exact ⟨first,second,both [y] second,failed _ unread⟩

end JutsuSyntax
