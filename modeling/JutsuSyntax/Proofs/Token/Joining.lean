import JutsuSyntax.Proofs.Cursor.Outcome
import JutsuSyntax.Proofs.Token.Tiling

/-! Reading a text that goes on behind a newline. The tokens before the newline stay as they are;
only a comment that ran to the end of the text takes the newline in. -/
namespace JutsuSyntax
open Token (Ended Lexes Piece Splits firstComplete firstSplits)

variable {text word rest : List Char} {piece : Piece} {kind : Token.Kind} {lexeme : Option String}
  {tokens : List Token}

namespace Token

theorem Ended.longer {inside : Char → Bool} (h : Ended inside rest) (newline : inside '\n' = false)
    (more : List Char) : Ended inside (rest ++ '\n' :: more) := by
  cases rest with
  | nil =>
    intro c head
    cases (by simpa using head : '\n' = c)
    exact newline
  | cons d ds => exact h

theorem prefixBefore {front more : List Char} {c : Char} (h : front <+: text ++ c :: more)
    (other : c ∉ front) : front <+: text := by
  rcases Nat.le_total front.length text.length with shorter | longer
  · exact List.prefix_of_prefix_length_le h (List.prefix_append _ _) shorter
  · have whole : text ++ [c] <+: text ++ c :: more := ⟨more,by simp⟩
    have start := List.prefix_of_prefix_length_le (List.prefix_append text _) h longer
    by_cases same : front.length = text.length
    · exact (start.eq_of_length same.symm) ▸ List.prefix_rfl
    · have past := List.prefix_of_prefix_length_le whole h (by simp; omega)
      exact absurd (past.subset (by simp)) other

def breaks : List Char := [' ','\t','\r','\n','#']

theorem symbolUnbroken {s : Symbol} {c : Char} (table : s ∈ Symbol.operators) (member : c ∈ breaks) :
    c ∉ s.characters := by
  have free : ∀ s ∈ Symbol.operators, breaks.all (fun c => decide (c ∉ s.characters)) := by decide
  exact of_decide_eq_true (List.all_eq_true.mp (free s table) c member)

theorem breakPlain {c : Char} (member : c ∈ breaks) : c.isAlpha = false ∧ c.isDigit = false := by
  have plain : breaks.all (fun c => !c.isAlpha && !c.isDigit) := by decide
  simpa using List.all_eq_true.mp plain c member

theorem Lexes.longer (h : Lexes kind lexeme word rest) (more : List Char) :
    Lexes kind lexeme word (rest ++ '\n' :: more) := by
  cases h with
  | operator table longest =>
    refine .operator table (fun entry member starts => longest entry member ?_)
    rw [← List.append_assoc] at starts
    exact prefixBefore starts (symbolUnbroken member (by decide))
  | reserved table ended => exact .reserved table (ended.longer (by decide) more)
  | name filled only free ended => exact .name filled only free (ended.longer (by decide) more)
  | integer filled only ended => exact .integer filled only (ended.longer (by decide) more)
  | string contents => exact .string contents

theorem Splits.longer (h : Splits text piece) :
    (∀ more, Splits (text ++ '\n' :: more) ⟨piece.role,piece.word,piece.rest ++ '\n' :: more⟩) ∨
    piece.role = .layout ∧ piece.rest = [] ∧
      ∀ more, Splits (text ++ '\n' :: more) ⟨.layout,piece.word ++ ['\n'],more⟩ := by
  cases h with
  | blank blank => exact .inl (fun _ => .blank blank)
  | newline => exact .inl (fun _ => .newline)
  | comment within => exact .inl (fun more => by simpa using .comment within)
  | lastComment within => exact .inr ⟨rfl,rfl,fun _ => .comment within⟩
  | token lexes => exact .inl (fun more => by simpa using .token (lexes.longer more))

end Token

theorem yieldDepth (s : Scanner) (piece : Piece) :
    (s.yield piece).foldl Token.depthPast s.depth = s.depthPast piece := by
  obtain ⟨role,word,rest⟩ := piece
  cases role with
  | layout => rfl
  | newline =>
    simp only [Scanner.yield]
    split <;> rfl
  | token kind lexeme => cases kind <;> rfl

theorem yieldWords (s : Scanner) (splits : Splits text piece) :
    ∀ x ∈ s.yield piece, x.kind ≠ .finish := by
  intro x member
  cases splits with
  | blank | comment | lastComment => simp [Scanner.yield] at member
  | newline =>
    simp only [Scanner.yield] at member
    split at member
    · simp [List.mem_singleton.mp member]
    · simp at member
  | token lexes =>
    rw [List.mem_singleton.mp member]
    exact (lexesWord lexes).1

theorem newlineScan (rest : List Char) (place : Location) (depth : Nat) :
    Scanner.scan ⟨'\n' :: rest,place,depth⟩ = (Scanner.scan ⟨rest,place.after '\n',depth⟩).map
      ((if depth = 0 then [⟨.newline,none,place⟩] else []) ++ ·) :=
  @Scanner.scanOk ⟨'\n' :: rest,place,depth⟩ '\n' rest ⟨.newline,['\n'],rest⟩ rfl rfl

/-- Behind a newline a text that reads as these tokens goes on as any other text does there. The
newline itself is a token, layout, or the end of a comment. -/
def Onward (s : Scanner) (tokens : List Token) : Prop :=
  ∃ front place lines, tokens = front ++ [Token.finish place] ∧ (∀ x ∈ front, x.kind ≠ .finish) ∧
    (∀ x ∈ lines, x.kind = .newline) ∧
    ∀ more, Scanner.scan ⟨s.rest ++ '\n' :: more,s.location,s.depth⟩ =
      (Scanner.scan ⟨more,(s.location.afterText s.rest).after '\n',
        front.foldl Token.depthPast s.depth⟩).map (front ++ lines ++ ·)

theorem onwardEnd {s : Scanner} (ahead : s.rest = []) : Onward s [Token.finish s.location] := by
  refine ⟨[],s.location,if s.depth = 0 then [⟨.newline,none,s.location⟩] else [],rfl,?_,?_,?_⟩
  · simp
  · split <;> simp
  · rw [ahead]
    exact fun more => newlineScan more s.location s.depth

section
variable {s : Scanner} {c : Char} {cs : List Char}

theorem placePast (ahead : s.rest = c :: cs) (found : Piece.first c cs = .ok piece) :
    (s.past piece).location.afterText piece.rest = s.location.afterText s.rest := by
  rw [ahead,← (Piece.firstAppend found).1,Location.afterTextAppend]
  rfl

theorem scanLonger (ahead : s.rest = c :: cs) {longer : Piece} {more : List Char}
    (whole : Splits (c :: cs ++ '\n' :: more) longer) :
    Scanner.scan ⟨s.rest ++ '\n' :: more,s.location,s.depth⟩ =
      (s.past longer).scan.map (s.yield longer ++ ·) := by
  rw [ahead]
  exact Scanner.scanOk (s := ⟨c :: cs ++ '\n' :: more,s.location,s.depth⟩) rfl (firstComplete whole)

theorem onwardPast (ahead : s.rest = c :: cs) (found : Piece.first c cs = .ok piece)
    (whole : ∀ more, Splits (c :: cs ++ '\n' :: more)
      ⟨piece.role,piece.word,piece.rest ++ '\n' :: more⟩)
    (onward : Onward (s.past piece) tokens) : Onward s (s.yield piece ++ tokens) := by
  obtain ⟨front,finish,lines,rfl,words,newlines,onward⟩ := onward
  refine ⟨s.yield piece ++ front,finish,lines,by rw [List.append_assoc],?_,newlines,?_⟩
  · intro x member
    exact (List.mem_append.mp member).elim (yieldWords s (firstSplits.mp found) x) (words x)
  · intro more
    rw [scanLonger ahead (whole more),← placePast ahead found,List.foldl_append,yieldDepth]
    refine (congrArg (Reply.map (s.yield piece ++ ·)) (onward more)).trans ?_
    simp only [Reply.mapMap,List.append_assoc]
    rfl

theorem onwardComment (ahead : s.rest = c :: cs) (found : Piece.first c cs = .ok piece)
    (layout : piece.role = .layout) (none : piece.rest = [])
    (whole : ∀ more, Splits (c :: cs ++ '\n' :: more) ⟨.layout,piece.word ++ ['\n'],more⟩) :
    Onward s (s.yield piece ++ [Token.finish (s.past piece).location]) := by
  have silent : s.yield piece = [] := by simp [Scanner.yield,layout]
  refine ⟨[],_,[],by rw [silent],by simp,by simp,fun more => ?_⟩
  rw [scanLonger ahead (whole more),← placePast ahead found,none]
  simp only [Scanner.past,Scanner.yield,Scanner.depthPast,Location.afterTextAppend]
  rfl

end

theorem scanOnward (s : Scanner) {tokens} (read : s.scan.result = .ok tokens) : Onward s tokens := by
  induction s using Scanner.scanInduct generalizing tokens with
  | ended s ahead =>
    rw [Scanner.scanNil ahead] at read
    cases read
    exact onwardEnd ahead
  | fails s c cs fault ahead found =>
    rw [Scanner.scanError ahead found] at read
    cases fault <;> contradiction
  | passes s c cs piece ahead found ih =>
    obtain ⟨later,rest,rfl⟩ := yieldPast ahead found read
    rcases (firstSplits.mp found).longer with whole | ⟨layout,none,whole⟩
    · exact onwardPast ahead found whole (ih rest)
    · rw [Scanner.scanNil none] at rest
      cases rest
      exact onwardComment ahead found layout none whole

namespace Location

def down (lines : Nat) (place : Location) : Location := {place with line := place.line + lines}

theorem downAfter (lines : Nat) (place : Location) (c : Char) :
    (place.down lines).after c = (place.after c).down lines := by
  unfold after
  split
  · simp [down,Nat.add_right_comm]
  · rfl

theorem downAfterText (lines : Nat) (place : Location) (text : List Char) :
    (place.down lines).afterText text = (place.afterText text).down lines := by
  induction text generalizing place with
  | nil => rfl
  | cons c text ih => rw [afterTextCons,afterTextCons,downAfter,ih]

end Location

def LexError.moved (place : Location → Location) : LexError → LexError
  | unreadable c location => unreadable c (place location)
  | unterminated location => unterminated (place location)

namespace Scanner

def down (lines : Nat) (s : Scanner) : Scanner := {s with location := s.location.down lines}

theorem downPast (lines : Nat) (s : Scanner) (piece : Piece) :
    (s.down lines).past piece = (s.past piece).down lines := by
  simp only [down,past,Location.downAfterText]
  rfl

theorem downYield (lines : Nat) (s : Scanner) (piece : Piece) :
    (s.down lines).yield piece = (s.yield piece).map (Token.moved (Location.down lines)) := by
  obtain ⟨role,word,rest⟩ := piece
  cases role with
  | layout | token => rfl
  | newline =>
    by_cases outside : s.depth = 0
    · simp only [yield,down,outside,if_true]
      rfl
    · simp only [yield,down,outside,if_false]
      rfl

theorem downScan (lines : Nat) (s : Scanner) : (s.down lines).scan.result =
    (s.scan.result.map (List.map (Token.moved (Location.down lines)))).mapError
      (LexError.moved (Location.down lines)) := by
  induction s using Scanner.scanInduct with
  | ended s ahead =>
    have same : (s.down lines).rest = [] := ahead
    rw [scanNil ahead,scanNil same]
    rfl
  | fails s c cs fault ahead found =>
    have same : (s.down lines).rest = c :: cs := ahead
    rw [scanError ahead found,scanError same found]
    cases fault <;> rfl
  | passes s c cs piece ahead found ih =>
    have same : (s.down lines).rest = c :: cs := ahead
    rw [scanOk ahead found,scanOk same found,downPast,downYield]
    simp only [Reply.map,ih]
    cases (s.past piece).scan.result with
    | error e => rfl
    | ok tokens => simp [Except.map]

end Scanner
end JutsuSyntax
