import JutsuSyntax.Proofs.Token.Depth
import JutsuSyntax.Proofs.Token.Joining

/-! Which newlines of a text are tokens. Outside strings and comments every newline is a piece of its
own, so the scanner comes to it with the brackets of the tokens before it, and keeps it if none of
them is still open. -/
namespace JutsuSyntax
open Token (Contents Lexes Piece Splits Symbol firstSplits symbolUnbroken)

namespace Location

def Before (place other : Location) : Prop :=
  place.line < other.line ∨ place.line = other.line ∧ place.column < other.column

variable {place other later : Location}

theorem Before.trans (one : place.Before other) (two : other.Before later) : place.Before later := by
  unfold Before at *
  omega

theorem beforeNever (place : Location) : ¬ place.Before place := by
  unfold Before
  omega

theorem beforeAfter (place : Location) (c : Char) : place.Before (place.after c) := by
  unfold Before after
  split
  · exact .inl (Nat.lt_succ_self _)
  · exact .inr ⟨rfl,Nat.lt_succ_self _⟩

theorem beforeText (place : Location) (c : Char) (text : List Char) :
    place.Before (place.afterText (c :: text)) := by
  induction text generalizing place c with
  | nil => exact beforeAfter place c
  | cons d text ih => exact (beforeAfter place c).trans (ih (place.after c) d)

end Location

/-- What the next character of a text belongs to. In a string a backslash keeps the character behind it
from closing the string; the newline that ends a comment belongs to it. -/
inductive Region where
  | outside
  | comment
  | string
  | escape
  deriving DecidableEq, Repr

namespace Region

def after : Region → Char → Region
  | outside, c => if c = '#' then comment else if c = '"' then string else outside
  | comment, c => if c = '\n' then outside else comment
  | string, c => if c = '"' then outside else if c = '\\' then escape else string
  | escape, _ => string

def afterText (region : Region) (text : List Char) : Region := text.foldl after region

def behind (front : List Char) : Region := outside.afterText front

variable {text word front back past line rest inside left : List Char} {kind : Token.Kind}
  {lexeme : Option String} {piece : Piece} {c : Char}

theorem afterTextCons (region : Region) (c : Char) (text : List Char) :
    region.afterText (c :: text) = (region.after c).afterText text := rfl

theorem afterTextAppend (region : Region) (front back : List Char) :
    region.afterText (front ++ back) = (region.afterText front).afterText back := List.foldl_append

theorem behindAppend (quiet : behind front = outside) (back : List Char) :
    behind (front ++ back) = behind back := by
  rw [behind,afterTextAppend]
  exact congrArg (·.afterText back) quiet

theorem behindQuiet (quiet : ∀ c ∈ text, c ≠ '#' ∧ c ≠ '"') : behind text = outside := by
  induction text with
  | nil => rfl
  | cons c text ih =>
    obtain ⟨own,later⟩ := List.forall_mem_cons.mp quiet
    have same : behind [c] = outside := by simp [behind,afterText,after,own]
    exact (behindAppend same text).trans (ih later)

theorem commentStays (within : '\n' ∉ line) : comment.afterText line = comment := by
  induction line with
  | nil => rfl
  | cons c line ih =>
    obtain ⟨other,within⟩ := List.ne_and_not_mem_of_not_mem_cons within
    have stays : comment.after c = comment := by simp [after,other.symm]
    rw [afterTextCons,stays]
    exact ih within

theorem stringPlain (quote : c ≠ '"') (slash : c ≠ '\\') : string.after c = string := by
  simp [after,quote,slash]

theorem stringStays (contents : Contents inside) : string.afterText inside = string := by
  induction contents with
  | none => rfl
  | escaped more ih => exact ih
  | plain quote slash more ih =>
    rw [afterTextCons,stringPlain quote slash]
    exact ih

theorem stringWithin (contents : Contents inside) (same : inside = front ++ back) :
    string.afterText front ≠ outside := by
  induction contents generalizing front with
  | none =>
    obtain ⟨rfl,_⟩ := List.append_eq_nil_iff.mp same.symm
    nofun
  | escaped more ih =>
    cases front with
    | nil => nofun
    | cons c front =>
      obtain ⟨rfl,behind⟩ := List.cons.inj same
      cases front with
      | nil => nofun
      | cons d front =>
        have later : string.afterText front ≠ outside := ih (List.cons.inj behind).2
        exact later
  | plain quote slash more ih =>
    cases front with
    | nil => nofun
    | cons d front =>
      obtain ⟨rfl,behind⟩ := List.cons.inj same
      rw [afterTextCons,stringPlain quote slash]
      exact ih behind

def Quiet (word : List Char) : Prop := ∀ c ∈ word, c ≠ '#' ∧ c ≠ '"' ∧ c ≠ '\n'

theorem operatorQuiet : ∀ s ∈ Symbol.operators, Quiet s.characters := by
  have plain : ∀ s ∈ Symbol.operators, s.characters.all (fun c => c ≠ '#' ∧ c ≠ '"' ∧ c ≠ '\n') := by
    decide
  intro s member c inside
  simpa using List.all_eq_true.mp (plain s member) c inside

theorem insideQuiet {inside : Char → Bool} (only : ∀ c ∈ word, inside c)
    (apart : inside '#' = false ∧ inside '"' = false ∧ inside '\n' = false) : Quiet word := by
  intro c member
  have kept := only c member
  refine ⟨?_,?_,?_⟩ <;> rintro rfl <;> simp [apart] at kept

theorem lexesQuiet (lexes : Lexes kind lexeme word rest) :
    Quiet word ∨ ∃ inside, Contents inside ∧ word = '"' :: (inside ++ ['"']) := by
  cases lexes with
  | operator table longest => exact .inl (operatorQuiet _ table)
  | @reserved s _ table ended =>
    exact .inl (insideQuiet (List.all_eq_true.mp (Symbol.wordLetters s table)) (by decide))
  | name filled only free ended => exact .inl (insideQuiet only (by decide))
  | integer filled only ended => exact .inl (insideQuiet only (by decide))
  | string contents => exact .inr ⟨_,contents,rfl⟩

theorem lexesBehind (lexes : Lexes kind lexeme word rest) : behind word = outside := by
  rcases lexesQuiet lexes with quiet | ⟨inside,contents,rfl⟩
  · exact behindQuiet (fun c member => ⟨(quiet c member).1,(quiet c member).2.1⟩)
  · have closed : string.afterText (inside ++ ['"']) = outside := by
      rw [afterTextAppend,stringStays contents]
      rfl
    exact closed

theorem lexesWithin (lexes : Lexes kind lexeme word rest) (same : word = front ++ '\n' :: left)
    (filled : front ≠ []) : behind front ≠ outside := by
  rcases lexesQuiet lexes with quiet | ⟨inside,contents,rfl⟩
  · have newline : '\n' ∈ word := same ▸ List.mem_append_right _ List.mem_cons_self
    exact absurd rfl (quiet _ newline).2.2
  · obtain ⟨c,front,rfl⟩ := List.exists_cons_of_ne_nil filled
    obtain ⟨rfl,later⟩ := List.cons.inj same
    have within : string.afterText front ≠ outside := by
      rcases List.append_eq_append_iff.mp later with ⟨past,_,ended⟩ | ⟨past,split,_⟩
      · cases past with
        | nil => cases ended
        | cons d past => simp at ended
      · exact stringWithin contents split
    exact within

theorem newlineParts (same : word ++ rest = front ++ '\n' :: back) :
    (∃ past, front = word ++ past ∧ rest = past ++ '\n' :: back) ∨
      ∃ left, word = front ++ '\n' :: left := by
  rcases List.append_eq_append_iff.mp same with ⟨past,split,more⟩ | ⟨past,split,more⟩
  · exact .inl ⟨past,split,more⟩
  · cases past with
    | nil => exact .inl ⟨[],by simpa using split.symm,more.symm⟩
    | cons c left =>
      obtain ⟨rfl,_⟩ := List.cons.inj more
      exact .inr ⟨left,split⟩

theorem commentWithin (within : '\n' ∉ line) (same : line ++ ['\n'] = front ++ '\n' :: left) :
    comment.afterText front = comment := by
  rcases newlineParts same with ⟨past,rfl,more⟩ | ⟨_,rfl⟩
  · cases past with
    | nil => exact (List.append_nil line).symm ▸ commentStays within
    | cons c past => simp at more
  · simp at within

theorem splitsWithin (splits : Splits text piece) (same : piece.word = front ++ '\n' :: left)
    (filled : front ≠ []) : behind front ≠ outside := by
  obtain ⟨c,front,rfl⟩ := List.exists_cons_of_ne_nil filled
  cases splits with
  | token lexes => exact lexesWithin lexes same filled
  | blank | newline => simp at same
  | comment within =>
    obtain ⟨rfl,later⟩ := List.cons.inj same
    have stays : behind ('#' :: front) = comment := commentWithin within later
    rw [stays]
    nofun
  | lastComment within =>
    obtain ⟨rfl,rfl⟩ := List.cons.inj same
    simp at within

theorem splitsBehind (splits : Splits text piece) (more : piece.rest ≠ []) :
    behind piece.word = outside := by
  cases splits with
  | token lexes => exact lexesBehind lexes
  | blank blank => rcases blank with rfl | rfl | rfl <;> rfl
  | newline => rfl
  | @comment line rest within =>
    have ends : comment.afterText (line ++ ['\n']) = outside := by
      rw [afterTextAppend,commentStays within]
      rfl
    exact ends
  | lastComment within => exact absurd rfl more

theorem splitsWhole (splits : Splits text piece) : piece.word ++ piece.rest = text := by
  cases splits <;> simp

theorem splitsCut (splits : Splits text piece) (same : text = front ++ '\n' :: back)
    (filled : front ≠ []) (quiet : behind front = outside) :
    ∃ past, front = piece.word ++ past ∧ piece.rest = past ++ '\n' :: back ∧ behind past = outside := by
  rcases newlineParts ((splitsWhole splits).trans same) with ⟨past,rfl,more⟩ | ⟨left,within⟩
  · have closed := splitsBehind splits (by simp [more])
    exact ⟨past,rfl,more,behindAppend closed past ▸ quiet⟩
  · exact absurd quiet (splitsWithin splits within filled)

end Region

open Region (splitsCut)

variable {s : Scanner} {tokens : List Token} {front back : List Char} {piece : Piece} {text : List Char}

theorem yieldPlace (s : Scanner) (piece : Piece) : ∀ x ∈ s.yield piece, x.location = s.location := by
  obtain ⟨role,word,rest⟩ := piece
  intro x member
  cases role with
  | layout => contradiction
  | newline =>
    simp only [Scanner.yield] at member
    split at member
    · rw [List.mem_singleton.mp member]
    · contradiction
  | token kind lexeme => rw [List.mem_singleton.mp member]

theorem scanPlaces (s : Scanner) {tokens : List Token} (read : s.scan.result = .ok tokens) :
    ∀ x ∈ tokens, ∃ text, x.location = s.location.afterText text := by
  induction s using Scanner.scanInduct generalizing tokens with
  | ended s ahead =>
    rw [Scanner.scanNil ahead] at read
    cases read
    intro x member
    exact ⟨[],by rw [List.mem_singleton.mp member]; rfl⟩
  | fails s c cs fault ahead found =>
    rw [Scanner.scanError ahead found] at read
    cases fault <;> contradiction
  | passes s c cs piece ahead found ih =>
    obtain ⟨later,rest,rfl⟩ := yieldPast ahead found read
    intro x member
    rcases List.mem_append.mp member with now | behind
    · exact ⟨[],yieldPlace s piece x now⟩
    · obtain ⟨text,place⟩ := ih rest x behind
      exact ⟨piece.word ++ text,by rw [place,Location.afterTextAppend]; rfl⟩

theorem scanComes (s : Scanner) {tokens : List Token} {front back : List Char}
    (read : s.scan.result = .ok tokens) (split : s.rest = front ++ '\n' :: back)
    (quiet : Region.behind front = .outside) :
    ∃ before after, tokens = before ++ after ∧
      (∀ x ∈ before, x.location.Before (s.location.afterText front)) ∧
      (Scanner.scan ⟨'\n' :: back,s.location.afterText front,
        before.foldl Token.depthPast s.depth⟩).result = .ok after := by
  -- Each piece before the newline ends in front of it, so the rest of the text holds it still.
  induction s using Scanner.scanInduct generalizing tokens front with
  | ended s ahead => simp [ahead] at split
  | fails s c cs fault ahead found =>
    rw [Scanner.scanError ahead found] at read
    cases fault <;> contradiction
  | passes s c cs piece ahead found ih =>
    cases front with
    | nil =>
      obtain ⟨rest,place,depth⟩ := s
      obtain rfl : rest = '\n' :: back := split
      exact ⟨[],tokens,rfl,List.forall_mem_nil _,read⟩
    | cons d front =>
      obtain ⟨later,rest,rfl⟩ := yieldPast ahead found read
      obtain ⟨past,same,behind,quiet⟩ :=
        splitsCut (firstSplits.mp found) (ahead.symm.trans split) (List.cons_ne_nil d front) quiet
      obtain ⟨before,after,rfl,places,comes⟩ := ih rest behind quiet
      have place : (s.past piece).location.afterText past = s.location.afterText (d :: front) := by
        rw [same,Location.afterTextAppend]
        rfl
      rw [place] at places comes
      refine ⟨s.yield piece ++ before,after,by rw [List.append_assoc],?_,?_⟩
      · intro x member
        rcases List.mem_append.mp member with now | inside
        · rw [yieldPlace s piece x now]
          exact s.location.beforeText d front
        · exact places x inside
      · rw [List.foldl_append,yieldDepth]
        exact comes

theorem newlineReads {place : Location} {depth : Nat}
    (read : (Scanner.scan ⟨'\n' :: back,place,depth⟩).result = .ok tokens) :
    (∀ x ∈ tokens, ¬ x.location.Before place) ∧ (⟨.newline,none,place⟩ ∈ tokens ↔ depth = 0) := by
  obtain ⟨later,rest,rfl⟩ :=
    @yieldPast tokens ⟨'\n' :: back,place,depth⟩ '\n' back ⟨.newline,['\n'],back⟩ rfl rfl read
  have beyond : ∀ x ∈ later, place.Before x.location := by
    intro x member
    obtain ⟨text,stands⟩ := scanPlaces _ rest x member
    rw [stands]
    exact place.beforeText '\n' text
  constructor
  · intro x member earlier
    rcases List.mem_append.mp member with now | behind
    · rw [yieldPlace _ _ x now] at earlier
      exact place.beforeNever earlier
    · exact place.beforeNever ((beyond x behind).trans earlier)
  · rw [List.mem_append]
    constructor
    · rintro (now | behind)
      · by_contra inside
        simp [Scanner.yield,inside] at now
      · exact absurd (beyond _ behind) place.beforeNever
    · intro outside
      exact .inl (by simp [Scanner.yield,outside])

/-- A newline outside strings and comments is a token exactly where the balance of the brackets before
it is the least it has been, that is, where each of them that opens has been closed. One closing
bracket more takes no newline away. -/
theorem newlinesKept (text : String) (tokens : List Token) (read : tokenize text = .ok tokens)
    (front back : List Char) (split : text.toList = front ++ '\n' :: back)
    (outside : Region.behind front = .outside) :
    ∃ before after, tokens = before ++ after ∧
      (∀ x ∈ before, x.location.Before (.behind front)) ∧
      (∀ x ∈ after, ¬ x.location.Before (.behind front)) ∧
      (⟨.newline,none,.behind front⟩ ∈ tokens ↔
        IsLeast {c | ∃ k ≤ before.length, c = balance (before.take k)} (balance before)) ∧
      (⟨.newline,none,.behind front⟩ ∈ tokens ↔ ∃ closer, Closing 0 before closer) ∧
      ∀ earlier surplus later, before = earlier ++ surplus :: later → surplus.closes →
        (∃ closer, Closing 0 (earlier ++ later) closer) → ⟨.newline,none,.behind front⟩ ∈ tokens := by
  obtain ⟨before,after,rfl,places,comes⟩ := scanComes (.ofText text) read split outside
  have place : (Scanner.ofText text).location.afterText front = .behind front :=
    Location.afterTextBehind [] front
  rw [place] at places comes
  obtain ⟨behind,kept⟩ := newlineReads comes
  have kept : ⟨.newline,none,.behind front⟩ ∈ before ++ after ↔ openBrackets before = 0 := by
    rw [List.mem_append,kept]
    refine or_iff_right (fun member => ?_)
    exact Location.beforeNever _ (places _ member)
  refine ⟨before,after,rfl,places,behind,kept.trans noneOpen,kept.trans noneOpenClosing,?_⟩
  rintro earlier surplus later rfl closes closed
  have fewer := surplusCloses closes earlier later
  have none := noneOpenClosing.mpr closed
  exact kept.mpr (by omega)

def straying : String := "]] ( # (\n\")\" \x7d\nx"

def strayingTokens : List Token :=
  [⟨.symbol .closeBracket,none,⟨1,1⟩⟩,⟨.symbol .closeBracket,none,⟨1,2⟩⟩,
   ⟨.symbol .openParen,none,⟨1,4⟩⟩,⟨.string,some ")",⟨2,1⟩⟩,⟨.symbol .closeBrace,none,⟨2,5⟩⟩,
   ⟨.newline,none,⟨2,6⟩⟩,⟨.name,some "x",⟨3,1⟩⟩,Token.finish ⟨3,2⟩]

theorem strayingKept : tokenize straying = .ok strayingTokens ∧
    Region.behind (straying.toList.take 14) = .outside ∧
    ∃ before after, strayingTokens = before ++ after ∧
      (∀ x ∈ before, x.location.Before ⟨2,6⟩) ∧ (∀ x ∈ after, ¬ x.location.Before ⟨2,6⟩) ∧
      IsLeast {c | ∃ k ≤ before.length, c = balance (before.take k)} (balance before) ∧
      ∃ closer, Closing 0 before closer := by
  have read : tokenize straying = .ok strayingTokens := by decide +kernel
  have split : straying.toList = straying.toList.take 14 ++ '\n' :: ['x'] := by decide
  have outside : Region.behind (straying.toList.take 14) = .outside := by decide
  obtain ⟨before,after,same,earlier,later,least,closing,_⟩ :=
    newlinesKept straying strayingTokens read _ _ split outside
  have member : ⟨.newline,none,⟨2,6⟩⟩ ∈ strayingTokens := by decide
  exact ⟨read,outside,before,after,same,earlier,later,least.mp member,closing.mp member⟩

end JutsuSyntax
