import JutsuSyntax.Proofs.Token.Spelling

/-! Texts in which words are written out. What stands between the words does not matter, as long
as each ends where a space, a comment or a newline begins: the scanner reads the words back. -/
namespace JutsuSyntax
open Token (Contents Ended Lexes Piece Splits Symbol breaks breakPlain firstComplete prefixBefore
  symbolUnbroken)

namespace Token
variable {inside : List Char}

def escapes (text : List Char) : Bool := text.foldl (fun escaped c => c = '\\' && !escaped) false

def Guarded (text : List Char) : Prop := ∀ before after, text = before ++ '"' :: after → escapes before

structure Quotable (inside : List Char) : Prop where
  quotes : Guarded inside
  closed : escapes inside = false

theorem escapesPair (c : Char) (text : List Char) : escapes ('\\' :: c :: text) = escapes text := by
  simp [escapes]

theorem escapesPlain {c : Char} (slash : c ≠ '\\') (text : List Char) :
    escapes (c :: text) = escapes text := by
  simp [escapes,slash]

theorem guardedPair {c : Char} {text : List Char} : Guarded ('\\' :: c :: text) ↔ Guarded text := by
  refine ⟨fun given before after same => ?_,fun given before after same => ?_⟩
  · rw [← escapesPair c]
    exact given ('\\' :: c :: before) after (by rw [same]; rfl)
  · match before with
    | [] => simp at same
    | [slash] =>
      cases same
      rfl
    | slash :: d :: before =>
      cases same
      exact (escapesPair c before).trans (given before after rfl)

theorem guardedPlain {c : Char} {text : List Char} (quote : c ≠ '"') (slash : c ≠ '\\') :
    Guarded (c :: text) ↔ Guarded text := by
  refine ⟨fun given before after same => ?_,fun given before after same => ?_⟩
  · rw [← escapesPlain slash]
    exact given (c :: before) after (by rw [same]; rfl)
  · cases before with
    | nil => exact absurd (List.cons.inj same).1 quote
    | cons d before =>
      cases same
      exact (escapesPlain slash before).trans (given before after rfl)

theorem slashPaired {c : Char} {text : List Char} (single : c = '\\' → text = [] → False)
    (pair : ∀ d rest, c = '\\' → text = d :: rest → False) : c ≠ '\\' := by
  intro slash
  cases text with
  | nil => exact single slash rfl
  | cons d rest => exact pair d rest slash rfl

theorem quotableContents (given : Quotable inside) : Contents inside := by
  obtain ⟨quotes,closed⟩ := given
  fun_induction splitString inside with
  | case1 => exact .none
  | case2 rest => exact absurd (quotes [] rest rfl) (by decide)
  | case3 => contradiction
  | case4 c rest ih =>
    rw [escapesPair] at closed
    exact .escaped (ih (guardedPair.mp quotes) closed)
  | case5 c rest quote single pair ih =>
    have slash := slashPaired single pair
    rw [escapesPlain slash] at closed
    exact .plain quote slash (ih ((guardedPlain quote slash).mp quotes) closed)

theorem contentsQuotable (contents : Contents inside) : Quotable inside := by
  induction contents with
  | none => exact ⟨by simp [Guarded],rfl⟩
  | @escaped c text more ih => exact ⟨guardedPair.mpr ih.quotes,(escapesPair c text).trans ih.closed⟩
  | @plain c text quote slash more ih =>
    exact ⟨(guardedPlain quote slash).mpr ih.quotes,(escapesPlain slash text).trans ih.closed⟩

end Token

namespace Word

inductive Writable : Word → Prop where
  | symbol (s : Symbol) : Writable (.symbol s)
  | integer {digits} (filled : digits ≠ []) (only : ∀ c ∈ digits, c.isDigit) :
      Writable (.integer (String.ofList digits))
  | name {letters} (filled : letters ≠ []) (only : ∀ c ∈ letters, c.isAlpha)
      (free : ∀ s ∈ Symbol.words, s.characters ≠ letters) : Writable (.name (String.ofList letters))
  | string {inside} (quotable : Token.Quotable inside) : Writable (.string (String.ofList inside))

def depthPast (depth : Nat) (w : Word) : Nat :=
  match w.kind with
  | .symbol s => s.depthAfter depth
  | _ => depth

end Word

def Token.bare (t : Token) : Word := ⟨t.kind,t.lexeme⟩

def Apart (text : List Char) : Prop := ∀ c ∈ text.head?, c ∈ breaks

/-- A text in which these words stand in order, in brackets of some depth at its start. Gaps may
be empty where no word ends in front of them. -/
inductive Writes : Nat → List Word → List Char → Prop where
  | last {depth gap} (layout : Gap depth gap []) : Writes depth [] gap
  | word {depth gap w ws text} (layout : Gap depth gap (w.spelling ++ text)) (writable : w.Writable)
      (apart : Apart text) (rest : Writes (w.depthPast depth) ws text) :
      Writes depth (w :: ws) (gap ++ (w.spelling ++ text))
  | newline {gap ws text} (layout : Gap 0 gap ('\n' :: text)) (rest : Writes 0 ws text) :
      Writes 0 (⟨.newline,none⟩ :: ws) (gap ++ '\n' :: text)

variable {w : Word} {ws : List Word} {text gap rest : List Char} {depth : Nat} {place : Location}

theorem apartCons {c : Char} (member : c ∈ breaks) : Apart (c :: text) := by
  intro d head
  cases head
  exact member

theorem Apart.ended {inside : Char → Bool} (apart : Apart text)
    (outside : ∀ c ∈ breaks, inside c = false) : Ended inside text :=
  fun c head => outside c (apart c head)

theorem Apart.longest {s : Symbol} (apart : Apart text) : s.Longest (s.characters ++ text) := by
  intro entry member starts
  cases text with
  | nil => simpa using starts.length_le
  | cons c text => exact (prefixBefore starts (symbolUnbroken member (apart c rfl))).length_le

theorem Word.Writable.lexes (h : w.Writable) (apart : Apart rest) :
    Lexes w.kind w.lexeme w.spelling rest := by
  have letters : Ended Char.isAlpha rest := apart.ended (fun _ => And.left ∘ breakPlain)
  cases h with
  | symbol s =>
    rcases List.mem_append.mp (Symbol.memAll s) with operator | reserved
    · have table : s ∈ Symbol.operators := List.mem_append.mpr (List.mem_append.mp operator).symm
      exact .operator table apart.longest
    · exact .reserved reserved letters
  | integer filled only =>
    have lexes := Lexes.integer filled only (apart.ended (fun _ => And.right ∘ breakPlain))
    simpa [Word.integer,Word.spelling,Word.text] using lexes
  | name filled only free =>
    simpa [Word.name,Word.spelling,Word.text] using Lexes.name filled only free letters
  | string quotable =>
    have lexes := @Lexes.string _ rest (Token.quotableContents quotable)
    simpa [Word.string,Word.spelling,Word.text] using lexes

theorem Word.Writable.token (h : w.Writable) {token : Token} (same : token.bare = w) : token.word = w := by
  obtain ⟨kind,lexeme,place⟩ := token
  cases h with
  | symbol | integer | name | string =>
    cases same
    rfl

theorem Writes.blank (written : Writes depth ws text) : Writes depth ws (' ' :: text) := by
  cases written with
  | last layout => exact .last (.blank (.inl rfl) layout)
  | word layout writable apart rest => exact .word (.blank (.inl rfl) layout) writable apart rest
  | newline layout rest => exact .newline (.blank (.inl rfl) layout) rest

theorem spacedWrites (writable : ∀ w ∈ ws, w.Writable) : Writes depth ws (Tree.spaced ws) := by
  induction ws generalizing depth with
  | nil => exact .last .none
  | cons w ws ih =>
    obtain ⟨first,others⟩ := List.forall_mem_cons.mp writable
    cases ws with
    | nil =>
      rw [spacedOne,← List.append_nil w.spelling]
      exact .word .none first nofun (.last .none)
    | cons v ws =>
      rw [spacedMore]
      exact .word .none first (apartCons (List.mem_of_elem_eq_true rfl)) (ih others).blank

theorem Token.Splits.filled {piece : Piece} (h : Splits text piece) : text ≠ [] := by
  cases h with
  | token lexes => exact List.append_ne_nil_of_left_ne_nil lexes.filled _
  | blank | newline | comment | lastComment => exact List.cons_ne_nil _ _

theorem splitsScan {piece : Piece} (splits : Splits text piece) (place : Location) (depth : Nat) :
    Scanner.scan ⟨text,place,depth⟩ = (Scanner.past ⟨text,place,depth⟩ piece).scan.map
      (Scanner.yield ⟨text,place,depth⟩ piece ++ ·) := by
  obtain ⟨c,cs,rfl⟩ := List.exists_cons_of_ne_nil splits.filled
  exact Scanner.scanOk rfl (firstComplete splits)

theorem silentScan {piece : Piece} (splits : Splits text piece)
    (silent : Scanner.yield ⟨text,place,depth⟩ piece = []) :
    Scanner.scan ⟨text,place,depth⟩ = (Scanner.past ⟨text,place,depth⟩ piece).scan := by
  rw [splitsScan splits,silent]
  exact Reply.mapNil _

theorem gapScan (layout : Gap depth gap rest) (place : Location) :
    Scanner.scan ⟨gap ++ rest,place,depth⟩ = Scanner.scan ⟨rest,place.afterText gap,depth⟩ := by
  induction layout generalizing place with
  | none => rfl
  | @blank c gap rest blank more ih =>
    have passed := @silentScan (c :: (gap ++ rest)) depth place _ (.blank blank) rfl
    exact passed.trans (ih (place.after c))
  | @newline gap rest inside more ih =>
    have silent : Scanner.yield ⟨'\n' :: (gap ++ rest),place,depth⟩ ⟨.newline,['\n'],gap ++ rest⟩ = [] :=
      if_neg inside
    exact (silentScan .newline silent).trans (ih (place.after '\n'))
  | @comment line gap rest within more ih =>
    have passed := @silentScan _ depth place _ (@Splits.comment line (gap ++ rest) within) rfl
    have word : '#' :: (line ++ '\n' :: gap) = '#' :: (line ++ ['\n']) ++ gap := by simp
    have text : '#' :: (line ++ '\n' :: gap) ++ rest = '#' :: (line ++ '\n' :: (gap ++ rest)) := by simp
    rw [text,word,Location.afterTextAppend,← ih]
    exact passed
  | @lastComment line within =>
    rw [List.append_nil]
    exact silentScan (.lastComment within) rfl

theorem writesScan (h : Writes depth ws text) (place : Location) : ∃ tokens finish,
    (Scanner.scan ⟨text,place,depth⟩).result = .ok (tokens ++ [Token.finish finish]) ∧
      tokens.map Token.bare = ws := by
  induction h generalizing place with
  | @last depth gap layout =>
    have scanned := gapScan layout place
    rw [List.append_nil] at scanned
    exact ⟨[],place.afterText gap,by rw [scanned,Scanner.scanNil rfl]; rfl,rfl⟩
  | @word depth gap w ws text layout writable apart _ ih =>
    let token : Token := ⟨w.kind,w.lexeme,place.afterText gap⟩
    obtain ⟨tokens,finish,read,same⟩ := ih (token.location.afterText w.spelling)
    have lexes : Lexes token.kind token.lexeme w.spelling text := writable.lexes apart
    have scanned := (gapScan layout place).trans (wordScan lexes token.location depth)
    refine ⟨token :: tokens,finish,?_,congrArg (w :: ·) same⟩
    rw [scanned]
    exact congrArg (Except.map (token :: ·)) read
  | @newline gap ws text layout _ ih =>
    obtain ⟨tokens,finish,read,same⟩ := ih ((place.afterText gap).after '\n')
    have scanned := (gapScan layout place).trans (newlineScan text (place.afterText gap) 0)
    refine ⟨⟨.newline,none,place.afterText gap⟩ :: tokens,finish,?_,congrArg (Word.mk .newline none :: ·) same⟩
    rw [scanned]
    exact congrArg (Except.map _) read

theorem tokenizeWritten (words : List Word) (text : String) (written : Writes 0 words text.toList) :
    ∃ tokens finish, tokenize text = .ok (tokens ++ [Token.finish finish]) ∧
      tokens.map Token.bare = words :=
  writesScan written .start

def scribbled : String := "\tf # \"(\n(\n\"\\\"#(\" )\r \n**= #"

def scribbledWords : List Word :=
  [.name "f",.symbol .openParen,.string "\\\"#(",.symbol .closeParen,⟨.newline,none⟩,
   .symbol .starStarAssign]

theorem scribbledRead : Writes 0 scribbledWords scribbled.toList ∧
    ∃ tokens finish, tokenize scribbled = .ok (tokens ++ [Token.finish finish]) ∧
      tokens.map Token.bare = scribbledWords := by
  have power : Writes 0 (scribbledWords.drop 5) "**= #".toList :=
    @Writes.word 0 [] (.symbol .starStarAssign) [] " #".toList .none (.symbol _)
      (apartCons (by decide)) (.last (.blank (by decide) (.lastComment (by decide))))
  have line : Writes 0 (scribbledWords.drop 4) "\r \n**= #".toList :=
    @Writes.newline ['\r',' '] _ _ (.blank (by decide) (.blank (by decide) .none)) power
  have close : Writes 1 (scribbledWords.drop 3) " )\r \n**= #".toList :=
    @Writes.word 1 [' '] (.symbol .closeParen) _ _ (.blank (by decide) .none) (.symbol _)
      (apartCons (by decide)) line
  have quotable : Token.Quotable ['\\','"','#','('] :=
    Token.contentsQuotable (.escaped (.plain (by decide) (by decide) (.plain (by decide) (by decide) .none)))
  have inside : Writes 1 (scribbledWords.drop 2) "\n\"\\\"#(\" )\r \n**= #".toList :=
    @Writes.word 1 ['\n'] (.string "\\\"#(") _ _ (.newline (by decide) .none) (.string quotable)
      (apartCons (by decide)) close
  have bracket : Writes 0 (scribbledWords.drop 1) " # \"(\n(\n\"\\\"#(\" )\r \n**= #".toList :=
    @Writes.word 0 " # \"(\n".toList (.symbol .openParen) _ _
      (.blank (by decide) (@Gap.comment 0 " \"(".toList [] _ (by decide) .none)) (.symbol _)
      (apartCons (by decide)) inside
  have written : Writes 0 scribbledWords scribbled.toList :=
    @Writes.word 0 ['\t'] (.name "f") _ _ (.blank (by decide) .none)
      (@Word.Writable.name ['f'] nofun (List.forall_mem_singleton.mpr rfl) (by decide)) (apartCons (by decide)) bracket
  exact ⟨written,tokenizeWritten scribbledWords scribbled written⟩

end JutsuSyntax
