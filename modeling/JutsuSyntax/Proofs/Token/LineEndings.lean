import JutsuSyntax.Proofs.Token.Failing

/-! Lines that end in a carriage return and a newline. Without strings a text is read alike with and
without the carriage returns; only the newlines themselves stand one column further on. -/
namespace JutsuSyntax
open Token (Ended Lexes Piece Splits Symbol firstFault firstSplits symbolUnbroken unreadableFirst)

def withReturns (text : List Char) : List Char :=
  text.flatMap (fun c => if c = '\n' then ['\r','\n'] else [c])

def Token.returned (token : Token) : Token :=
  if token.kind = .newline then
    {token with location := ⟨token.location.line,token.location.column + 1⟩}
  else token

variable {text word rest front : List Char} {c : Char} {piece : Piece} {kind : Token.Kind}
  {lexeme : Option String} {place : Location} {depth : Nat}

@[simp] theorem returnsNil : withReturns [] = [] := rfl

@[simp] theorem returnsNewline (text : List Char) :
    withReturns ('\n' :: text) = '\r' :: '\n' :: withReturns text := rfl

theorem returnsOther (other : c ≠ '\n') (text : List Char) :
    withReturns (c :: text) = c :: withReturns text := by
  rw [withReturns,List.flatMap_cons,if_neg other]
  rfl

theorem returnsBehind (plain : '\n' ∉ front) (text : List Char) :
    withReturns (front ++ text) = front ++ withReturns text := by
  induction front with
  | nil => rfl
  | cons c front ih =>
    obtain ⟨other,plain⟩ := List.ne_and_not_mem_of_not_mem_cons plain
    rw [List.cons_append,returnsOther other.symm,ih plain,List.cons_append]

theorem returnsPrefix (unbroken : '\r' ∉ front) (h : front <+: withReturns text) : front <+: text := by
  induction text generalizing front with
  | nil => exact h
  | cons c text ih =>
    cases front with
    | nil => exact List.nil_prefix
    | cons d front =>
      obtain ⟨other,unbroken⟩ := List.ne_and_not_mem_of_not_mem_cons unbroken
      by_cases newline : c = '\n'
      · rw [newline,returnsNewline] at h
        exact absurd (List.cons_prefix_cons.mp h).1.symm other
      · rw [returnsOther newline] at h
        obtain ⟨same,more⟩ := List.cons_prefix_cons.mp h
        exact List.cons_prefix_cons.mpr ⟨same,ih unbroken more⟩

namespace Token

theorem Ended.returns {inside : Char → Bool} (h : Ended inside rest) (outside : inside '\r' = false) :
    Ended inside (withReturns rest) := by
  cases rest with
  | nil => exact h
  | cons c rest =>
    intro d head
    by_cases newline : c = '\n'
    · rw [newline,returnsNewline] at head
      cases head
      exact outside
    · rw [returnsOther newline] at head
      exact h d head

theorem Lexes.returns (h : Lexes kind lexeme word rest) (unquoted : '"' ∉ word) :
    '\n' ∉ word ∧ Lexes kind lexeme word (withReturns rest) := by
  have letter : ∀ {letters : List Char}, (∀ c ∈ letters, c.isAlpha) → '\n' ∉ letters :=
    fun only member => absurd (only _ member) (by decide)
  cases h with
  | @operator s _ table longest =>
    have plain : '\n' ∉ s.characters := symbolUnbroken table (by decide)
    refine ⟨plain,.operator table (fun entry member starts => longest entry member ?_)⟩
    rw [← returnsBehind plain] at starts
    exact returnsPrefix (symbolUnbroken member (by decide)) starts
  | @reserved s _ table ended =>
    have only := List.all_eq_true.mp (Symbol.wordLetters s table)
    exact ⟨letter only,.reserved table (ended.returns (by decide))⟩
  | name filled only free ended => exact ⟨letter only,.name filled only free (ended.returns (by decide))⟩
  | integer filled only ended =>
    refine ⟨fun member => absurd (only _ member) (by decide),?_⟩
    exact .integer filled only (ended.returns (by decide))
  | string contents => exact absurd List.mem_cons_self unquoted

theorem returnedOther {token : Token} (other : token.kind ≠ .newline) : token.returned = token :=
  if_neg other

end Token

theorem returnedNewline (place : Location) : Token.returned ⟨.newline,none,place⟩ =
    ⟨.newline,none,place.after '\r'⟩ := rfl

theorem returnForgotten (place : Location) : (place.after '\r').after '\n' = place.after '\n' := rfl

theorem returnsStep (splits : Splits text piece) (unquoted : '"' ∉ text) (place : Location) (depth : Nat) :
    Scanner.scan ⟨withReturns text,place,depth⟩ =
      (Scanner.scan ⟨withReturns piece.rest,place.afterText piece.word,
        Scanner.depthPast ⟨text,place,depth⟩ piece⟩).map
        ((Scanner.yield ⟨text,place,depth⟩ piece).map Token.returned ++ ·) := by
  cases splits with
  | @blank c rest blank =>
    have other : c ≠ '\n' := by rcases blank with rfl | rfl | rfl <;> decide
    rw [returnsOther other]
    exact splitsScan (.blank blank) place depth
  | @newline rest =>
    have passed := @silentScan _ depth place _ (.blank (.inr (.inr rfl)) : Splits
      ('\r' :: '\n' :: withReturns rest) ⟨.layout,['\r'],'\n' :: withReturns rest⟩) rfl
    refine passed.trans ((newlineScan (withReturns rest) (place.after '\r') depth).trans ?_)
    by_cases outside : depth = 0
    · simp only [Scanner.yield,outside,if_true,List.map_singleton,returnedNewline]
      rfl
    · simp only [Scanner.yield,outside,if_false]
      rfl
  | @comment line rest within =>
    -- The comment takes in the carriage return too, and behind its newline the places meet again.
    have longer : '\n' ∉ line ++ ['\r'] := by simp [within]
    have same : withReturns ('#' :: (line ++ '\n' :: rest)) =
        '#' :: ((line ++ ['\r']) ++ '\n' :: withReturns rest) := by
      rw [returnsOther (by decide),returnsBehind within]
      simp
    have back : place.afterText ('#' :: (line ++ ['\r'] ++ ['\n'])) =
        place.afterText ('#' :: (line ++ ['\n'])) := by
      simp [Location.afterTextAppend,returnForgotten]
    rw [same,splitsScan (.comment longer) place depth]
    simp only [Scanner.past,back]
    rfl
  | @lastComment line within =>
    have same : withReturns ('#' :: line) = '#' :: line := by
      rw [returnsOther (by decide)]
      simpa using returnsBehind within []
    rw [same]
    exact splitsScan (.lastComment within) place depth
  | @token kind lexeme word rest lexes =>
    have unquoted : '"' ∉ word := fun member => unquoted (List.mem_append_left _ member)
    obtain ⟨plain,longer⟩ := lexes.returns unquoted
    have other : Token.returned ⟨kind,lexeme,place⟩ = ⟨kind,lexeme,place⟩ :=
      Token.returnedOther (lexesWord lexes).2
    rw [returnsBehind plain,splitsScan (.token longer) place depth]
    simp only [Scanner.yield,List.map_singleton,other]
    rfl

theorem returnsScan (s : Scanner) (unquoted : '"' ∉ s.rest) :
    (Scanner.scan ⟨withReturns s.rest,s.location,s.depth⟩).result =
      s.scan.result.map (List.map Token.returned) := by
  induction s using Scanner.scanInduct with
  | ended s ahead =>
    rw [ahead,Scanner.scanNil ahead,returnsNil,@Scanner.scanNil ⟨[],_,_⟩ rfl]
    rfl
  | fails s c cs fault ahead found =>
    have other : c ≠ '\n' := (firstFault found).1.newline
    cases fault with
    | unreadable =>
      rw [Scanner.scanError ahead found,ahead,returnsOther other,
        Scanner.scanError rfl (unreadableFirst found (withReturns cs))]
      rfl
    | unterminated =>
      obtain ⟨_,quote,_⟩ := firstFault found
      rw [ahead,quote] at unquoted
      exact absurd List.mem_cons_self unquoted
  | passes s c cs piece ahead found ih =>
    have whole := (Piece.firstAppend found).1
    have later : '"' ∉ piece.rest := by
      intro member
      rw [ahead,← whole] at unquoted
      exact unquoted (List.mem_append_right _ member)
    rw [ahead] at unquoted
    rw [ahead,returnsStep (firstSplits.mp found) unquoted,Scanner.scanOk ahead found]
    refine (congrArg (Except.map _) (ih later)).trans ?_
    change _ = ((s.past piece).scan.result.map (s.yield piece ++ ·)).map (List.map Token.returned)
    cases (s.past piece).scan.result with
    | error e => rfl
    | ok tokens => exact congrArg Except.ok List.map_append.symm

def returnedText (text : String) : String := String.ofList (withReturns text.toList)

theorem tokenizeReturned {text : String} (unquoted : '"' ∉ text.toList) :
    tokenize (returnedText text) = (tokenize text).map (List.map Token.returned) := by
  rw [returnedText,tokenizeCharacters]
  exact returnsScan (.ofText text) unquoted

end JutsuSyntax
