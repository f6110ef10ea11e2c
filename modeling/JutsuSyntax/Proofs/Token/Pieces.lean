import JutsuSyntax.Token.Scanner
import Mathlib.Data.List.TakeWhile

/-! The pieces of a text, said without the order in which the reader tries them: what a piece is
made of and where it has to end. The reader splits a text at exactly these pieces. -/
namespace JutsuSyntax.Token

namespace Symbol
variable {table : List Symbol} {text rest : List Char} {best : Option Symbol} {s entry : Symbol}

theorem findCharacters (s : Symbol) : all.find? (fun k => k.characters == s.characters) = some s := by
  cases s <;> decide

theorem charactersInjective (h : s.characters = entry.characters) : s = entry := by
  have found := findCharacters s
  rw [h,findCharacters entry] at found
  exact (Option.some.inj found).symm

theorem findSound {word : List Char} (h : table.find? (fun k => k.characters == word) = some s) :
    s ∈ table ∧ s.characters = word :=
  ⟨List.mem_of_find?_eq_some h,by simpa using List.find?_some h⟩

theorem findEntry (member : s ∈ table) :
    table.find? (fun k => k.characters == s.characters) = some s := by
  have some : (table.find? (fun k => k.characters == s.characters)).isSome :=
    List.find?_isSome.mpr ⟨s,member,by simp⟩
  obtain ⟨k,found⟩ := Option.isSome_iff_exists.mp some
  rw [found,charactersInjective (findSound found).2]

theorem preferKeeps (h : best = some s) :
    ∃ k, prefer text best entry = some k ∧ s.characters.length ≤ k.characters.length := by
  unfold prefer
  split
  · rename_i better
    simp only [h,Option.all_some,Bool.and_eq_true,decide_eq_true_eq] at better
    exact ⟨entry,rfl,Nat.le_of_lt better.1⟩
  · exact ⟨s,h,Nat.le_refl _⟩

theorem preferTakes (starts : entry.characters.isPrefixOf text) :
    ∃ k, prefer text best entry = some k ∧ entry.characters.length ≤ k.characters.length := by
  unfold prefer
  split
  · exact ⟨entry,rfl,Nat.le_refl _⟩
  · rename_i worse
    cases best with
    | none => simp [starts] at worse
    | some k => exact ⟨k,rfl,by simpa [starts] using worse⟩

theorem foldKeeps (table : List Symbol) (h : best = some s) :
    ∃ k, table.foldl (prefer text) best = some k ∧ s.characters.length ≤ k.characters.length := by
  induction table generalizing best s with
  | nil => exact ⟨s,h,Nat.le_refl _⟩
  | cons entry table ih =>
    obtain ⟨k,kept,longer⟩ := preferKeeps h
    obtain ⟨last,found,longest⟩ := ih kept
    exact ⟨last,found,Nat.le_trans longer longest⟩

theorem longestMatchFinds (member : entry ∈ table) (starts : entry.characters.isPrefixOf text) :
    ∃ s, longestMatch table text = some s ∧ entry.characters.length ≤ s.characters.length := by
  obtain ⟨front,back,rfl⟩ := List.append_of_mem member
  obtain ⟨k,taken,longer⟩ := @preferTakes text (front.foldl (prefer text) none) entry starts
  obtain ⟨s,found,longest⟩ := foldKeeps back taken
  refine ⟨s,?_,Nat.le_trans longer longest⟩
  rw [longestMatch,List.foldl_append]
  exact found

def operators : List Symbol := compounds ++ singles

def Longest (s : Symbol) (text : List Char) : Prop :=
  ∀ entry ∈ operators, entry.characters <+: text → entry.characters.length ≤ s.characters.length

theorem compoundLong : ∀ s ∈ compounds, 1 < s.characters.length := by decide

theorem singleShort : ∀ s ∈ singles, s.characters.length = 1 := by decide

theorem longestMatchCompound (member : s ∈ compounds) (longest : Longest s (s.characters ++ rest)) :
    longestMatch compounds (s.characters ++ rest) = some s := by
  have starts : s.characters.isPrefixOf (s.characters ++ rest) :=
    List.isPrefixOf_iff_prefix.mpr (List.prefix_append _ _)
  obtain ⟨k,found,longer⟩ := longestMatchFinds member starts
  obtain ⟨inside,front⟩ := longestMatchSound found
  have front := List.isPrefixOf_iff_prefix.mp front
  have shorter := longest k (List.mem_append_left _ inside) front
  have same := List.prefix_of_prefix_length_le (List.prefix_append s.characters rest) front longer
  rw [found,charactersInjective (same.eq_of_length (Nat.le_antisymm longer shorter))]

theorem longestMatchSingle (member : s ∈ singles) (longest : Longest s (s.characters ++ rest)) :
    longestMatch compounds (s.characters ++ rest) = none := by
  cases found : longestMatch compounds (s.characters ++ rest) with
  | none => rfl
  | some k =>
    obtain ⟨inside,front⟩ := longestMatchSound found
    have long := compoundLong k inside
    have short := longest k (List.mem_append_left _ inside) (List.isPrefixOf_iff_prefix.mp front)
    rw [singleShort s member] at short
    omega

theorem plainHeads : ∀ s ∈ operators, s.characters.head?.all
    (fun c => decide (c ∉ [' ','\t','\r','\n','#','"']) && !c.isAlphanum) := by decide

theorem operatorStarts {c : Char} (member : s ∈ operators) (head : s.characters.head? = some c) :
    c ∉ [' ','\t','\r','\n','#','"'] ∧ c.isAlphanum = false := by
  have plain := plainHeads s member
  rw [head,Option.all_some,Bool.and_eq_true,decide_eq_true_eq,Bool.not_eq_true'] at plain
  exact plain

theorem wordLetters : ∀ s ∈ words, s.characters.all Char.isAlpha := by decide

theorem noCompound {c : Char} (other : ∀ s ∈ operators, s.characters.head? ≠ some c) :
    longestMatch compounds (c :: rest) = none := by
  cases found : longestMatch compounds (c :: rest) with
  | none => rfl
  | some s =>
    obtain ⟨inside,front⟩ := longestMatchSound found
    obtain ⟨behind,same⟩ := List.isPrefixOf_iff_prefix.mp front
    obtain ⟨x,xs,characters⟩ := List.exists_cons_of_ne_nil (charactersNonempty s)
    rw [characters] at same
    cases same
    exact absurd (by rw [characters]; rfl) (other s (List.mem_append_left _ inside))

theorem noSingle {c : Char} (other : ∀ s ∈ operators, s.characters.head? ≠ some c) :
    ofChar? c = none := by
  refine List.find?_eq_none.mpr (fun s member same => other s (List.mem_append_right _ member) ?_)
  rw [beq_iff_eq.mp same]
  rfl

end Symbol

inductive Contents : List Char → Prop where
  | none : Contents []
  | escaped {c text} (more : Contents text) : Contents ('\\' :: c :: text)
  | plain {c text} (quote : c ≠ '"') (slash : c ≠ '\\') (more : Contents text) : Contents (c :: text)

def Ended (inside : Char → Bool) (text : List Char) : Prop := ∀ c ∈ text.head?, inside c = false

/-- A token of this kind with this lexeme is written as the word, in front of the rest. -/
inductive Lexes : Kind → Option String → List Char → List Char → Prop where
  | operator {s : Symbol} {rest} (table : s ∈ Symbol.operators)
      (longest : s.Longest (s.characters ++ rest)) : Lexes (.symbol s) none s.characters rest
  | reserved {s : Symbol} {rest} (table : s ∈ Symbol.words) (ended : Ended Char.isAlpha rest) :
      Lexes (.symbol s) none s.characters rest
  | name {letters rest} (filled : letters ≠ []) (only : ∀ c ∈ letters, c.isAlpha)
      (free : ∀ s ∈ Symbol.words, s.characters ≠ letters) (ended : Ended Char.isAlpha rest) :
      Lexes .name (some (String.ofList letters)) letters rest
  | integer {digits rest} (filled : digits ≠ []) (only : ∀ c ∈ digits, c.isDigit)
      (ended : Ended Char.isDigit rest) : Lexes .integer (some (String.ofList digits)) digits rest
  | string {inside rest} (contents : Contents inside) :
      Lexes .string (some (String.ofList inside)) ('"' :: (inside ++ ['"'])) rest

inductive Splits : List Char → Piece → Prop where
  | blank {c rest} (blank : c = ' ' ∨ c = '\t' ∨ c = '\r') : Splits (c :: rest) ⟨.layout,[c],rest⟩
  | newline {rest} : Splits ('\n' :: rest) ⟨.newline,['\n'],rest⟩
  | comment {line rest} (within : '\n' ∉ line) :
      Splits ('#' :: (line ++ '\n' :: rest)) ⟨.layout,'#' :: (line ++ ['\n']),rest⟩
  | lastComment {line} (within : '\n' ∉ line) : Splits ('#' :: line) ⟨.layout,'#' :: line,[]⟩
  | token {kind lexeme word rest} (lexes : Lexes kind lexeme word rest) :
      Splits (word ++ rest) ⟨.token kind lexeme,word,rest⟩

variable {c : Char} {cs text inside line rest : List Char} {piece : Piece}

theorem takeExact {inside : Char → Bool} (only : ∀ c ∈ text, inside c) (ended : Ended inside rest) :
    (text ++ rest).takeWhile inside = text ∧ (text ++ rest).dropWhile inside = rest := by
  rw [List.takeWhile_append_of_pos only,List.dropWhile_append_of_pos only]
  cases rest with
  | nil => simp
  | cons c cs =>
    have stop : ¬ inside c := by simp [ended c rfl]
    simp [List.takeWhile_cons_of_neg stop,List.dropWhile_cons_of_neg stop]

theorem takeSound (inside : Char → Bool) (text : List Char) :
    (∀ c ∈ text.takeWhile inside, inside c) ∧ Ended inside (text.dropWhile inside) := by
  refine ⟨fun c member => List.mem_takeWhile_imp member,fun c member => ?_⟩
  have := List.head?_dropWhile_not inside text
  rw [Option.mem_def.mp member] at this
  simpa using this

theorem splitStringSound (h : splitString text = some (inside,rest)) : Contents inside := by
  fun_induction splitString text generalizing inside rest with
  | case1 => simp at h
  | case2 =>
    cases h
    exact .none
  | case3 => simp at h
  | case4 c cs ih =>
    obtain ⟨⟨i,r⟩,found,same⟩ := Option.map_eq_some_iff.mp h
    cases same
    exact .escaped (ih found)
  | case5 c cs quote _ slash ih =>
    obtain ⟨⟨i,r⟩,found,same⟩ := Option.map_eq_some_iff.mp h
    cases same
    refine .plain quote (fun same => ?_) (ih found)
    cases cs with
    | nil => simp [splitString] at found
    | cons d ds => exact slash d ds same rfl

theorem splitStringComplete (contents : Contents inside) (rest : List Char) :
    splitString (inside ++ '"' :: rest) = some (inside,rest) := by
  induction contents with
  | none => rfl
  | escaped more ih => simp [splitString,ih]
  | @plain c text quote slash more ih =>
    rw [List.cons_append,splitString]
    · simp [ih]
    · exact quote
    · exact fun same _ => slash same
    · exact fun _ _ same _ => slash same

theorem ofDigitsSound (digit : c.isDigit) : Splits (c :: cs) (Piece.ofDigits (c :: cs)) := by
  obtain ⟨only,ended⟩ := takeSound Char.isDigit (c :: cs)
  have filled : (c :: cs).takeWhile Char.isDigit ≠ [] := by simp [digit]
  have split := Splits.token (.integer filled only ended)
  rwa [List.takeWhile_append_dropWhile] at split

theorem ofLettersSound (letter : c.isAlpha) : Splits (c :: cs) (Piece.ofLetters (c :: cs)) := by
  obtain ⟨only,ended⟩ := takeSound Char.isAlpha (c :: cs)
  have filled : (c :: cs).takeWhile Char.isAlpha ≠ [] := by simp [letter]
  have whole := List.takeWhile_append_dropWhile (p := Char.isAlpha) (l := c :: cs)
  unfold Piece.ofLetters
  dsimp only
  generalize (c :: cs).takeWhile Char.isAlpha = letters at *
  generalize (c :: cs).dropWhile Char.isAlpha = rest at *
  rw [← whole]
  cases found : Symbol.ofWord? letters with
  | none =>
    dsimp only
    refine .token (.name filled only (fun s member same => ?_) ended)
    exact absurd found (by rw [← same,Symbol.ofWord?,Symbol.findEntry member]; simp)
  | some s =>
    obtain ⟨inside,same⟩ := Symbol.findSound found
    rw [← same]
    exact .token (.reserved inside ended)

theorem ofCommentSound : Splits ('#' :: cs) (Piece.ofComment ('#' :: cs)) := by
  have within : '\n' ∉ cs.takeWhile (· ≠ '\n') :=
    fun member => by simpa using List.mem_takeWhile_imp member
  have whole := List.takeWhile_append_dropWhile (p := (· ≠ '\n')) (l := cs)
  have ended := List.head?_dropWhile_not (· ≠ '\n') cs
  unfold Piece.ofComment
  rw [List.takeWhile_cons_of_pos (by decide),List.dropWhile_cons_of_pos (by decide)]
  generalize cs.takeWhile (· ≠ '\n') = line at *
  generalize cs.dropWhile (· ≠ '\n') = rest at *
  rw [← whole]
  cases rest with
  | nil => simpa using Splits.lastComment within
  | cons d ds =>
    cases (by simpa using ended : d = '\n')
    exact .comment within

theorem longestOfCompound {s : Symbol} (found : Symbol.longestMatch Symbol.compounds text = some s) :
    s.Longest text := by
  intro entry member starts
  rcases List.mem_append.mp member with compound | single
  · obtain ⟨k,same,longer⟩ :=
      Symbol.longestMatchFinds compound (List.isPrefixOf_iff_prefix.mpr starts)
    cases found.symm.trans same
    exact longer
  · rw [Symbol.singleShort entry single]
    exact List.length_pos_iff.mpr (Symbol.charactersNonempty s)

theorem longestOfSingle {s : Symbol} (none : Symbol.longestMatch Symbol.compounds text = none) :
    s.Longest text := by
  intro entry member starts
  rcases List.mem_append.mp member with compound | single
  · obtain ⟨k,same,_⟩ := Symbol.longestMatchFinds compound (List.isPrefixOf_iff_prefix.mpr starts)
    exact absurd (none.symm.trans same) nofun
  · rw [Symbol.singleShort entry single]
    exact List.length_pos_iff.mpr (Symbol.charactersNonempty s)

theorem ofCompoundSound {s : Symbol} (found : Symbol.longestMatch Symbol.compounds text = some s) :
    Splits text ⟨.token (.symbol s) none,s.characters,text.drop s.characters.length⟩ := by
  obtain ⟨inside,starts⟩ := Symbol.longestMatchSound found
  obtain ⟨rest,same⟩ := List.isPrefixOf_iff_prefix.mp starts
  have longest := longestOfCompound found
  rw [← same] at longest ⊢
  rw [List.drop_left]
  exact .token (.operator (List.mem_append_left _ inside) longest)

theorem ofSingleSound {s : Symbol} (compound : Symbol.longestMatch Symbol.compounds (c :: cs) = none)
    (found : Symbol.ofChar? c = some s) : Splits (c :: cs) ⟨.token (.symbol s) none,[c],cs⟩ := by
  obtain ⟨inside,same⟩ := Symbol.findSound found
  have longest : s.Longest (s.characters ++ cs) := by
    rw [same]
    exact longestOfSingle compound
  have split := Splits.token (.operator (List.mem_append_right _ inside) longest)
  rwa [same] at split

theorem ofStringSound {inside rest : List Char} (found : splitString cs = some (inside,rest)) :
    Splits ('"' :: cs)
      ⟨.token .string (some (String.ofList inside)),'"' :: (inside ++ ['"']),rest⟩ := by
  have split := Splits.token (@Lexes.string inside rest (splitStringSound found))
  rwa [List.cons_append,List.append_assoc,List.singleton_append,splitStringAppend found] at split

theorem firstSound (h : Piece.first c cs = .ok piece) : Splits (c :: cs) piece := by
  unfold Piece.first at h
  split at h
  · cases h
    exact .blank ‹_›
  split at h
  · cases h
    subst c
    exact .newline
  split at h
  · cases h
    subst c
    exact ofCommentSound
  split at h
  · rename_i s found
    cases h
    exact ofCompoundSound found
  rename_i compound
  split at h
  · rename_i s found
    cases h
    exact ofSingleSound compound found
  split at h
  · cases h
    exact ofDigitsSound ‹_›
  split at h
  · split at h
    · cases h
      rename_i quote _ inside rest found
      rw [quote]
      exact ofStringSound found
    · contradiction
  split at h
  · cases h
    exact ofLettersSound ‹_›
  · contradiction

theorem operatorHead {s : Symbol} (member : s ∈ Symbol.operators) :
    ∃ d ds, s.characters = d :: ds ∧ d ∉ [' ','\t','\r','\n','#','"'] ∧ d.isAlphanum = false := by
  obtain ⟨d,ds,same⟩ := List.exists_cons_of_ne_nil (Symbol.charactersNonempty s)
  exact ⟨d,ds,same,Symbol.operatorStarts member (by rw [same]; rfl)⟩

theorem operatorFirst {s : Symbol} (member : s ∈ Symbol.operators)
    (longest : s.Longest (s.characters ++ rest)) (same : c :: cs = s.characters ++ rest) :
    Piece.first c cs = .ok ⟨.token (.symbol s) none,s.characters,rest⟩ := by
  obtain ⟨d,ds,characters,plain,_⟩ := operatorHead member
  have head : c = d := by
    rw [characters] at same
    exact (List.cons.inj same).1
  simp only [List.mem_cons,List.not_mem_nil,not_or,or_false] at plain
  rw [Piece.first,if_neg (by simp [head,plain]),if_neg (by simp [head,plain]),
    if_neg (by simp [head,plain]),same]
  rcases List.mem_append.mp member with compound | single
  · simp only [Symbol.longestMatchCompound compound longest,List.drop_left]
  · have alone : s.characters = [c] := by
      have := Symbol.singleShort s single
      rw [characters,head] at *
      simpa using this
    have found : Symbol.ofChar? c = some s := by
      rw [Symbol.ofChar?,← alone]
      exact Symbol.findEntry single
    have compound := Symbol.longestMatchSingle single longest
    rw [alone] at same compound
    simp only [compound,found,alone,(List.cons.inj same).2]
    rfl

structure Passed (c : Char) (cs : List Char) : Prop where
  blank : ¬ (c = ' ' ∨ c = '\t' ∨ c = '\r')
  newline : c ≠ '\n'
  sharp : c ≠ '#'
  compound : Symbol.longestMatch Symbol.compounds (c :: cs) = none
  single : Symbol.ofChar? c = none

theorem passedBehind (c : Char) (cs : List Char) (other : c = '"' ∨ c.isAlphanum) : Passed c cs := by
  have none : ∀ s ∈ Symbol.operators, s.characters.head? ≠ some c := by
    intro s member head
    obtain ⟨quote,alphanumeric⟩ := Symbol.operatorStarts member head
    rcases other with rfl | inside
    · simp at quote
    · rw [alphanumeric] at inside
      contradiction
  have plain (d : Char) (apart : d.isAlphanum = false ∧ d ≠ '"') : c ≠ d := by
    intro given
    obtain rfl := given
    simp [apart] at other
  refine ⟨?_,plain '\n' (by decide),plain '#' (by decide),Symbol.noCompound none,Symbol.noSingle none⟩
  simp [plain ' ' (by decide),plain '\t' (by decide),plain '\r' (by decide)]

theorem digitFirst (digit : c.isDigit) : Piece.first c cs = .ok (Piece.ofDigits (c :: cs)) := by
  obtain ⟨blank,newline,sharp,compound,single⟩ :=
    passedBehind c cs (.inr (by simp [Char.isAlphanum,digit]))
  simp only [Piece.first,blank,newline,sharp,compound,single,digit,if_true,if_false]

theorem quoteFirst (found : splitString cs = some (inside,rest)) : Piece.first '"' cs =
    .ok ⟨.token .string (some (String.ofList inside)),'"' :: (inside ++ ['"']),rest⟩ := by
  obtain ⟨blank,newline,sharp,compound,single⟩ := passedBehind '"' cs (.inl rfl)
  have digit : ¬ ('"').isDigit := by decide
  simp only [Piece.first,blank,newline,sharp,compound,single,digit,found,Bool.false_eq_true,if_true,if_false]

theorem letterApart (letter : c.isAlpha) : ¬ c.isDigit := by
  intro digit
  have low : c.toNat ≤ 57 := of_decide_eq_true (Bool.and_eq_true_iff.mp digit).2
  rcases Bool.or_eq_true_iff.mp letter with upper | lower
  · have high : 65 ≤ c.toNat := (of_decide_eq_true upper).1
    omega
  · have high : 97 ≤ c.toNat := of_decide_eq_true (Bool.and_eq_true_iff.mp lower).1
    omega

theorem letterFirst (letter : c.isAlpha) : Piece.first c cs = .ok (Piece.ofLetters (c :: cs)) := by
  obtain ⟨blank,newline,sharp,compound,single⟩ :=
    passedBehind c cs (.inr (by simp [Char.isAlphanum,letter]))
  have digit : ¬ c.isDigit := letterApart letter
  have quote : c ≠ '"' := by
    intro given
    obtain rfl := given
    contradiction
  simp only [Piece.first,blank,newline,sharp,compound,single,digit,quote,letter,Bool.false_eq_true,
    if_true,if_false]

theorem headInside {inside : Char → Bool} (filled : text ≠ []) (only : ∀ c ∈ text, inside c)
    (same : c :: cs = text ++ rest) : inside c := by
  obtain ⟨d,ds,rfl⟩ := List.exists_cons_of_ne_nil filled
  cases same
  exact only c List.mem_cons_self

theorem lettersFirst {letters : List Char} {role : Role} (filled : letters ≠ [])
    (only : ∀ c ∈ letters, c.isAlpha) (ended : Ended Char.isAlpha rest)
    (found : (Piece.ofLetters (letters ++ rest)).role = role) (same : c :: cs = letters ++ rest) :
    Piece.first c cs = .ok ⟨role,letters,rest⟩ := by
  obtain ⟨take,drop⟩ := takeExact only ended
  have split : Piece.ofLetters (letters ++ rest) = ⟨role,letters,rest⟩ := by
    rw [← found]
    exact congrArg₂ (Piece.mk _) take drop
  rw [letterFirst (headInside filled only same),same,split]

theorem lexesFirst {kind lexeme word} (h : Lexes kind lexeme word rest) (same : c :: cs = word ++ rest) :
    Piece.first c cs = .ok ⟨.token kind lexeme,word,rest⟩ := by
  cases h with
  | operator table longest => exact operatorFirst table longest same
  | @reserved s _ table ended =>
    have only := List.all_eq_true.mp (Symbol.wordLetters s table)
    refine lettersFirst (Symbol.charactersNonempty s) only ended ?_ same
    simp only [Piece.ofLetters,(takeExact only ended).1,Symbol.ofWord?,Symbol.findEntry table]
  | name filled only free ended =>
    refine lettersFirst filled only ended ?_ same
    have none : Symbol.ofWord? word = none :=
      List.find?_eq_none.mpr (fun s member found => free s member (by simpa using found))
    simp only [Piece.ofLetters,(takeExact only ended).1,none]
  | integer filled only ended =>
    obtain ⟨take,drop⟩ := takeExact only ended
    rw [digitFirst (headInside filled only same),Piece.ofDigits,same,take,drop]
  | string contents =>
    rw [List.cons_append,List.append_assoc] at same
    obtain ⟨rfl,rfl⟩ := List.cons.inj same
    exact quoteFirst (splitStringComplete contents rest)

theorem commentExact (within : '\n' ∉ line) (ended : Ended (· ≠ '\n') rest) :
    ('#' :: (line ++ rest)).takeWhile (· ≠ '\n') = '#' :: line ∧
      ('#' :: (line ++ rest)).dropWhile (· ≠ '\n') = rest := by
  have only : ∀ c ∈ '#' :: line, (decide (c ≠ '\n')) := by
    intro c member
    rcases List.mem_cons.mp member with rfl | inside
    · decide
    · simp only [decide_eq_true_eq]
      intro given
      obtain rfl := given
      exact within inside
  exact takeExact only ended

theorem firstComment : Piece.first '#' cs = .ok (Piece.ofComment ('#' :: cs)) := rfl

theorem firstComplete (h : Splits (c :: cs) piece) : Piece.first c cs = .ok piece := by
  generalize same : c :: cs = text at h
  cases h with
  | blank blank =>
    cases same
    exact if_pos blank
  | newline =>
    cases same
    rfl
  | @comment line rest within =>
    cases same
    obtain ⟨take,drop⟩ := @commentExact line ('\n' :: rest) within (by simp [Ended])
    rw [firstComment,Piece.ofComment,take,drop]
    rfl
  | lastComment within =>
    cases same
    obtain ⟨take,drop⟩ := @commentExact cs [] within (by simp [Ended])
    rw [List.append_nil] at take drop
    rw [firstComment,Piece.ofComment,take,drop]
    simp
  | token lexes => exact lexesFirst lexes same

theorem firstSplits : Piece.first c cs = .ok piece ↔ Splits (c :: cs) piece :=
  ⟨firstSound,firstComplete⟩

end JutsuSyntax.Token
