import JutsuSyntax.Proofs.Token.Writing

/-! Texts that cannot be read to their end. The scanner gets to the first character that begins no
piece, and up to there it has read what it reads of the text cut off before that character. What
comes behind matters only for an open string, and only if it has a quote. -/
namespace JutsuSyntax
open Token (Ended Lexes Piece Splits Symbol firstComplete firstSplits
  prefixBefore splitString)

namespace Location

theorem behindGrows {front more : List Char} (same : behind (front ++ more) = behind front) :
    more = [] := by
  obtain ⟨line,column⟩ := Location.mk.inj same
  rw [List.count_append] at line
  have within : '\n' ∉ more := List.count_eq_zero.mp (by omega)
  have plain : ∀ c ∈ more.reverse, (decide (c ≠ '\n')) := by
    intro c member
    exact decide_eq_true (fun newline => within (newline ▸ List.mem_reverse.mp member))
  rw [List.reverse_append,List.takeWhile_append_of_pos plain,List.length_append,List.length_reverse] at column
  exact List.length_eq_zero_iff.mp (by omega)

theorem behindUnique {front others back rest : List Char} (split : front ++ back = others ++ rest)
    (same : behind front = behind others) : front = others := by
  rcases List.append_eq_append_iff.mp split with ⟨more,rfl,_⟩ | ⟨more,rfl,_⟩
  · rw [behindGrows same.symm,List.append_nil]
  · rw [behindGrows same,List.append_nil]

end Location

variable {text back rest more other word front cs : List Char} {c : Char} {piece : Piece} {e : LexError}
  {fault : Token.Fault} {kind : Token.Kind} {lexeme : Option String}

namespace Token

theorem openGuarded (opened : splitString text = none) : Guarded text := by
  fun_induction splitString text with
  | case1 => simp [Guarded]
  | case2 => contradiction
  | case3 =>
    intro before after same
    rcases List.cons_eq_append_iff.mp same with ⟨_,quote⟩ | ⟨_,_,more⟩
    · simp at quote
    · simp at more
  | case4 c rest ih => exact guardedPair.mpr (ih (Option.map_eq_none_iff.mp opened))
  | case5 c rest quote single pair ih =>
    have slash := slashPaired single pair
    exact (guardedPlain quote slash).mpr (ih (Option.map_eq_none_iff.mp opened))

theorem openLonger (opened : splitString text = none) (unquoted : '"' ∉ more) :
    splitString (text ++ more) = none := by
  cases found : splitString (text ++ more) with
  | none => rfl
  | some split =>
    obtain ⟨inside,rest⟩ := split
    have contents := splitStringSound found
    rcases List.append_eq_append_iff.mp (splitStringAppend found) with ⟨early,rfl,same⟩ | ⟨late,rfl,same⟩
    · cases early with
      | nil =>
        rw [List.nil_append] at same
        exact absurd (same ▸ List.mem_cons_self) unquoted
      | cons d early =>
        cases same
        exact absurd ((splitStringComplete contents early).symm.trans opened) nofun
    · exact absurd (same ▸ List.mem_append_right late List.mem_cons_self) unquoted

theorem firstFault (found : Piece.first c cs = .error fault) : Passed c cs ∧
    match fault with
    | .unreadable => ¬ c.isDigit ∧ c ≠ '"' ∧ ¬ c.isAlpha
    | .unterminated => c = '"' ∧ splitString cs = none := by
  unfold Piece.first at found
  split at found
  · contradiction
  rename_i blank
  split at found
  · contradiction
  rename_i newline
  split at found
  · contradiction
  rename_i sharp
  split at found
  · contradiction
  rename_i compound
  split at found
  · contradiction
  rename_i single
  refine ⟨⟨blank,newline,sharp,compound,single⟩,?_⟩
  split at found
  · contradiction
  split at found
  · split at found
    · contradiction
    · cases found
      exact ⟨‹_›,‹_›⟩
  split at found
  · contradiction
  · cases found
    exact ⟨‹_›,‹_›,‹_›⟩

theorem faultUnsigned (found : Piece.first c cs = .error fault) :
    ∀ s ∈ Symbol.operators, c ∉ s.characters := by
  have parts : ∀ s ∈ Symbol.operators, s.characters.all (fun d => (Symbol.ofChar? d).isSome) := by decide
  intro s member inside
  have single := List.all_eq_true.mp (parts s member) c inside
  rw [(firstFault found).1.single] at single
  contradiction

theorem openFirst (opened : splitString cs = none) : Piece.first '"' cs = .error .unterminated := by
  obtain ⟨blank,newline,sharp,compound,single⟩ := passedBehind '"' cs (.inl rfl)
  have digit : ¬ ('"').isDigit := by decide
  simp only [Piece.first,blank,newline,sharp,compound,single,digit,opened,Bool.false_eq_true,if_true,if_false]

theorem unreadableFirst (found : Piece.first c cs = .error .unreadable) (more : List Char) :
    Piece.first c more = .error .unreadable := by
  obtain ⟨⟨blank,newline,sharp,_,single⟩,digit,quote,letter⟩ := firstFault found
  have compound : Symbol.longestMatch Symbol.compounds (c :: more) = none := by
    refine Symbol.noCompound (fun s member head => faultUnsigned found s member ?_)
    exact List.mem_of_head? head
  simp only [Piece.first,blank,newline,sharp,compound,single,digit,quote,letter,Bool.false_eq_true,if_false]

theorem Ended.recut {inside : Char → Bool} (h : Ended inside (rest ++ c :: cs))
    (alike : ∀ d ∈ other.head?, d = c) : Ended inside (rest ++ other) := by
  cases rest with
  | nil =>
    intro d head
    rw [alike d head]
    exact h c rfl
  | cons d rest => exact h

theorem Lexes.recut (h : Lexes kind lexeme word (rest ++ c :: cs))
    (unsigned : ∀ s ∈ Symbol.operators, c ∉ s.characters) (alike : ∀ d ∈ other.head?, d = c) :
    Lexes kind lexeme word (rest ++ other) := by
  cases h with
  | @operator s _ table longest =>
    refine .operator table (fun entry member starts => longest entry member ?_)
    have early : entry.characters <+: s.characters ++ rest := by
      rw [← List.append_assoc] at starts
      cases other with
      | nil => rwa [List.append_nil] at starts
      | cons d other =>
        cases alike d rfl
        exact prefixBefore starts (unsigned entry member)
    rw [← List.append_assoc]
    exact early.trans (List.prefix_append _ _)
  | reserved table ended => exact .reserved table (ended.recut alike)
  | name filled only free ended => exact .name filled only free (ended.recut alike)
  | integer filled only ended => exact .integer filled only (ended.recut alike)
  | string contents => exact .string contents

theorem Splits.recut (h : Splits text piece) (same : piece.rest = rest ++ c :: cs)
    (unsigned : ∀ s ∈ Symbol.operators, c ∉ s.characters) (alike : ∀ d ∈ other.head?, d = c) :
    Splits (piece.word ++ (rest ++ other)) ⟨piece.role,piece.word,rest ++ other⟩ := by
  cases h with
  | blank blank => exact .blank blank
  | newline => exact .newline
  | comment within => simpa using Splits.comment within
  | lastComment within => simp at same
  | token lexes =>
    cases same
    exact .token (lexes.recut unsigned alike)

def Fault.raised (c : Char) (place : Location) : Fault → LexError
  | .unreadable => .unreadable c place
  | .unterminated => .unterminated place

end Token

/-- The scanner gets past `front` and fails at the character behind it. With the text cut off there,
or with another one behind `front` that begins alike, it gets there all the same. -/
structure Stuck (s : Scanner) (e : LexError) (front : List Char) (c : Char) (cs : List Char)
    (fault : Token.Fault) : Prop where
  ahead : s.rest = front ++ c :: cs
  found : Piece.first c cs = .error fault
  raised : e = fault.raised c (s.location.afterText front)
  begun : ∃ tokens depth, ∀ other : List Char, (∀ d ∈ other.head?, d = c) →
    Scanner.scan ⟨front ++ other,s.location,s.depth⟩ =
      (Scanner.scan ⟨other,s.location.afterText front,depth⟩).map (tokens ++ ·)

theorem Scanner.failRaises {s : Scanner} (failed : (s.fail c fault).result = .error e) :
    e = fault.raised c s.location := by
  cases fault <;> exact (Except.error.inj failed).symm

theorem Reply.mapFails {ε σ α β : Type} {f : α → β} {r : Reply ε σ α} {e : ε}
    (failed : (r.map f).result = .error e) : r.result = .error e := by
  obtain ⟨result,after⟩ := r
  cases result with
  | error d => exact congrArg Except.error (Except.error.inj failed)
  | ok value => contradiction

theorem Stuck.step {s : Scanner} {d ds} (ahead : s.rest = d :: ds)
    (found : Piece.first d ds = .ok piece) (stuck : Stuck (s.past piece) e front c cs fault) :
    Stuck s e (piece.word ++ front) c cs fault := by
  have behind : piece.rest = front ++ c :: cs := stuck.ahead
  refine ⟨?_,stuck.found,?_,?_⟩
  · rw [ahead,← (Piece.firstAppend found).1,behind,List.append_assoc]
  · rw [Location.afterTextAppend]
    exact stuck.raised
  · obtain ⟨tokens,depth,begun⟩ := stuck.begun
    refine ⟨s.yield piece ++ tokens,depth,fun other alike => ?_⟩
    have splits := (firstSplits.mp found).recut behind (Token.faultUnsigned stuck.found) alike
    rw [List.append_assoc,splitsScan splits,Location.afterTextAppend]
    refine (congrArg (Reply.map (s.yield piece ++ ·)) (begun other alike)).trans ?_
    exact Reply.mapAppend _ _ _

theorem scanStuck (s : Scanner) (failed : s.scan.result = .error e) :
    ∃ front c cs fault, Stuck s e front c cs fault := by
  induction s using Scanner.scanInduct with
  | ended s ahead =>
    rw [Scanner.scanNil ahead] at failed
    contradiction
  | fails s c cs fault ahead found =>
    rw [Scanner.scanError ahead found] at failed
    refine ⟨[],c,cs,fault,ahead,found,Scanner.failRaises failed,[],s.depth,fun other _ => ?_⟩
    exact (Reply.mapNil _).symm
  | passes s c cs piece ahead found ih =>
    rw [Scanner.scanOk ahead found] at failed
    obtain ⟨front,d,ds,fault,stuck⟩ := ih (Reply.mapFails failed)
    exact ⟨piece.word ++ front,d,ds,fault,stuck.step ahead found⟩

theorem Stuck.place {s : Scanner} (stuck : Stuck s e front c cs fault) :
    e.location = s.location.afterText front := by
  rw [stuck.raised]
  cases fault <;> rfl

theorem Stuck.cut {s : Scanner} (stuck : Stuck s e front c cs fault) : ∃ tokens,
    (Scanner.scan ⟨front,s.location,s.depth⟩).result = .ok (tokens ++ [Token.finish e.location]) := by
  obtain ⟨tokens,depth,begun⟩ := stuck.begun
  have read := begun [] (by simp)
  rw [List.append_nil] at read
  refine ⟨tokens,?_⟩
  rw [read,@Scanner.scanNil ⟨[],_,depth⟩ rfl,stuck.place]
  rfl

theorem Stuck.again {s : Scanner} (stuck : Stuck s e front c cs fault)
    (found : Piece.first c more = .error fault) :
    (Scanner.scan ⟨front ++ c :: more,s.location,s.depth⟩).result = .error e := by
  obtain ⟨tokens,depth,begun⟩ := stuck.begun
  rw [begun (c :: more) (by simp),Scanner.scanError rfl found,stuck.raised]
  cases fault <;> rfl

theorem tokenizeFailsLonger {text more : String} (failed : tokenize text = .error e)
    (unquoted : '"' ∉ more.toList) : tokenize (text ++ more) = .error e := by
  obtain ⟨front,c,back,fault,stuck⟩ := scanStuck (.ofText text) failed
  have whole : text.toList = front ++ c :: back := stuck.ahead
  have longer : text ++ more = String.ofList (front ++ c :: (back ++ more.toList)) := by
    rw [← List.cons_append,← List.append_assoc,← whole]
    simp
  rw [longer,tokenizeCharacters]
  refine stuck.again ?_
  cases fault with
  | unreadable => exact Token.unreadableFirst stuck.found _
  | unterminated =>
    obtain ⟨_,rfl,opened⟩ := Token.firstFault stuck.found
    exact Token.openFirst (Token.openLonger opened unquoted)

theorem tokenizeStuck (text : String) (e : LexError) (failed : tokenize text = .error e) :
    ∃ front c back, text.toList = front ++ c :: back ∧
      (∀ before after, text.toList = before ++ after →
        (Location.behind before = e.location ↔ before = front)) ∧
      (∃ tokens, tokenize (String.ofList front) = .ok (tokens ++ [Token.finish e.location])) ∧
      match e with
      | .unreadable d _ => d = c ∧ ∀ more, tokenize (String.ofList (front ++ c :: more)) = .error e
      | .unterminated _ => c = '"' ∧ Token.Guarded back ∧
        ∀ more : String, '"' ∉ more.toList → tokenize (text ++ more) = .error e := by
  obtain ⟨front,c,back,fault,stuck⟩ := scanStuck (.ofText text) failed
  have whole : text.toList = front ++ c :: back := stuck.ahead
  have place : e.location = Location.behind front :=
    stuck.place.trans (Location.afterTextBehind [] front)
  refine ⟨front,c,back,whole,fun before after split => ⟨fun same => ?_,fun same => ?_⟩,?_,?_⟩
  · exact Location.behindUnique (split.symm.trans whole) (same.trans place)
  · rw [same,place]
  · rw [tokenizeCharacters]
    exact stuck.cut
  · cases fault with
    | unreadable =>
      cases stuck.raised
      refine ⟨rfl,fun more => ?_⟩
      rw [tokenizeCharacters]
      exact stuck.again (Token.unreadableFirst stuck.found more)
    | unterminated =>
      cases stuck.raised
      obtain ⟨_,rfl,opened⟩ := Token.firstFault stuck.found
      refine ⟨rfl,Token.openGuarded opened,fun more unquoted => ?_⟩
      have longer : text ++ more = String.ofList (front ++ '"' :: (back ++ more.toList)) := by
        rw [← List.cons_append,← List.append_assoc,← whole]
        simp
      rw [longer,tokenizeCharacters]
      exact stuck.again (Token.openFirst (Token.openLonger opened unquoted))

def torn : String := "f(# \"\n\"a\nb\"\n\"c\\\"\\"

theorem tornStuck : tokenize torn = .error (.unterminated ⟨4,1⟩) ∧
    ∃ front c back, torn.toList = front ++ c :: back ∧
      (∀ before after, torn.toList = before ++ after →
        (Location.behind before = ⟨4,1⟩ ↔ before = front)) ∧
      (∃ tokens, tokenize (String.ofList front) = .ok (tokens ++ [Token.finish ⟨4,1⟩])) ∧
      c = '"' ∧ Token.Guarded back ∧
      ∀ more : String, '"' ∉ more.toList →
        tokenize (torn ++ more) = .error (.unterminated ⟨4,1⟩) := by
  have failed : tokenize torn = .error (.unterminated ⟨4,1⟩) := by decide +kernel
  exact ⟨failed,tokenizeStuck torn _ failed⟩

end JutsuSyntax
