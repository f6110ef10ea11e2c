import JutsuSyntax.Proofs.Program.Brackets
import JutsuSyntax.Proofs.Token.Spelling
import JutsuSyntax.Proofs.Tree.Words

/-! Programs written back. A statement holds no newline token, so on a line of its own, with single
spaces between its words, it is scanned into the same words and read as the same tree. -/
namespace JutsuSyntax
open Grammar (Lines Statement)
open Token (Lexes Symbol breakPlain breaks symbolUnbroken)

variable {tokens front : List Token} {tiles : List Tile} {token : Token} {t : Tree} {ts : List Tree}

theorem tilingSpelt (tiling : Tiling [] 0 tiles) (member : token ∈ tiles.map Tile.token)
    (word : token.kind ≠ .finish) (plain : token.kind ≠ .newline) : Spelt token := by
  obtain ⟨tile,inside,rfl⟩ := List.mem_map.mp member
  obtain ⟨before,after,split⟩ := List.append_of_mem inside
  rcases (tilingFits tiling split).stands with ⟨newline,_⟩ | ⟨ended,_⟩ | lexes
  · exact absurd newline plain
  · exact absurd ended word
  · exact ⟨_,lexes⟩

def Sentence (t : Tree) : Prop := ∃ tokens, Statement tokens t ∧ ∀ x ∈ tokens, Spelt x

def NewlinesOutside (tokens : List Token) : Prop :=
  ∀ before newline after, tokens = before ++ newline :: after → newline.kind = .newline →
    openBrackets before = 0

theorem NewlinesOutside.behind (h : NewlinesOutside (front ++ tokens)) (balanced : Grammar.Balanced front) :
    NewlinesOutside tokens := by
  intro before newline after same kind
  have outside := h (front ++ before) newline after (by rw [same,List.append_assoc]) kind
  rwa [openBrackets,List.foldl_append,balanced] at outside

theorem statementSentence (first : Statement tokens t) {more : List Token}
    (outside : NewlinesOutside (tokens ++ more))
    (spelt : ∀ x ∈ tokens, x.kind ≠ .newline → Spelt x) : Sentence t := by
  refine ⟨tokens,first,fun x member => spelt x member (fun kind => ?_)⟩
  obtain ⟨before,after,same⟩ := List.append_of_mem member
  have enclosed := Grammar.statementEncloses first kind same
  exact enclosed.counted (outside before x (after ++ more) (by simp [same]) kind)

theorem linesSentences (h : Lines tokens ts) (outside : NewlinesOutside tokens)
    (spelt : ∀ x ∈ tokens, x.kind ≠ .newline → Spelt x) : ∀ t ∈ ts, Sentence t := by
  induction h with
  | none => exact nofun
  | last only =>
    have sentence := @statementSentence _ _ only [] (by rwa [List.append_nil]) spelt
    exact fun t member => List.mem_singleton.mp member ▸ sentence
  | @blank newline tokens ts kind rest ih =>
    have front := (Grammar.bracketlessNewline kind).one.balanced
    exact ih (@NewlinesOutside.behind tokens [newline] outside front)
      (fun x member => spelt x (List.mem_cons_of_mem _ member))
  | @line tokens newline others t ts first kind rest ih =>
    have front := ((Grammar.statementNested first).append (Grammar.bracketlessNewline kind).one).balanced
    have later : NewlinesOutside others := by
      refine NewlinesOutside.behind ?_ front
      simpa using outside
    refine List.forall_mem_cons.mpr ⟨?_,ih later ?_⟩
    · exact statementSentence first outside (fun x member => spelt x (List.mem_append_left _ member))
    · intro x member
      exact spelt x (List.mem_append_right _ (List.mem_cons_of_mem _ member))

theorem sentenceWords (first : Statement tokens t) (spelt : ∀ x ∈ tokens, Spelt x) :
    Tree.statementWords t = tokens.map Token.word := by
  rw [Tree.statementWordsRead first,plainWords]
  exact congrArg _ (List.filter_eq_self.mpr (fun x member => by simpa using (spelt x member).proper.2))

def renderedLine (t : Tree) : List Char := Tree.spaced (Tree.statementWords t) ++ ['\n']

theorem renderScan (sentences : ∀ t ∈ ts, Sentence t) (place : Location) :
    ∃ read tokens finish, (Scanner.scan ⟨ts.flatMap renderedLine,place,0⟩).result =
        .ok (read ++ [Token.finish finish]) ∧
      read.map (Token.moved .nowhere) = tokens.map (Token.moved .nowhere) ∧ Lines tokens ts := by
  induction ts generalizing place with
  | nil => exact ⟨[],[],place,congrArg Reply.result (Scanner.scanNil rfl),rfl,.none⟩
  | cons t ts ih =>
    obtain ⟨⟨sentence,first,spelt⟩,others⟩ := List.forall_mem_cons.mp sentences
    obtain ⟨read,behind,same,scanned⟩ := spacedScan sentence spelt place 0
    obtain ⟨more,tokens,finish,rest,alike,lines⟩ := ih others (behind.after '\n')
    let newline : Token := ⟨.newline,none,behind⟩
    have closed : sentence.foldl Token.depthPast 0 = 0 := (Grammar.statementNested first).balanced 0
    refine ⟨read ++ newline :: more,sentence ++ newline :: tokens,finish,?_,?_,.line first rfl lines⟩
    · rw [List.flatMap_cons,renderedLine,sentenceWords first spelt,List.append_assoc,List.singleton_append,
        scanned,closed,newlineScan]
      simp [Reply.map,Except.map,rest,newline]
    · rw [List.map_append,List.map_append,List.map_cons,List.map_cons,same,alike]

theorem lexesNewline {kind : Token.Kind} {lexeme : Option String} {word rest : List Char}
    (h : Lexes kind lexeme word rest) (member : '\n' ∈ word) : kind = .string := by
  have apart : '\n' ∈ breaks := List.mem_of_elem_eq_true rfl
  obtain ⟨letter,digit⟩ := breakPlain apart
  cases h with
  | operator table longest => exact absurd member (symbolUnbroken table apart)
  | @reserved s _ table ended =>
    have only := List.all_eq_true.mp (Symbol.wordLetters s table) '\n' member
    rw [letter] at only
    contradiction
  | name filled only free ended =>
    have only := only '\n' member
    rw [letter] at only
    contradiction
  | integer filled only ended =>
    have only := only '\n' member
    rw [digit] at only
    contradiction
  | string contents => rfl

theorem linesWord (h : Lines tokens ts) (member : token ∈ tokens) : token.kind ≠ .finish := by
  intro kind
  have occurs := Grammar.linesOccur h token member
  rw [kind] at occurs
  contradiction

theorem renderParse (sentences : ∀ t ∈ ts, Sentence t) :
    parseText (Tree.program ts).render = .ok (Tree.program ts) := by
  obtain ⟨read,tokens,finish,scanned,same,lines⟩ := renderScan sentences .start
  have lexed : tokenize (Tree.program ts).render = .ok (read ++ [Token.finish finish]) := by
    rw [Tree.render,tokenizeCharacters]
    exact scanned
  have parsed : parse (tokens ++ [Token.finish finish]) = .ok (Tree.program ts) := by
    refine linesParse ?_
    rwa [takeBefore (fun _ member => linesWord lines member) rfl]
  have alike := @parseMoved read .nowhere (Token.finish finish) rfl
  rw [List.map_append,same,← List.map_append,parseMoved .nowhere rfl,parsed] at alike
  cases again : parse (read ++ [Token.finish finish]) with
  | ok u =>
    rw [again] at alike
    have whole : u = Tree.program ts := (Except.ok.inj alike).symm
    simp [parseText,lexed,again,whole]
  | error e =>
    rw [again] at alike
    contradiction

theorem renderReads (text : String) (t : Tree) (accepted : parseText text = .ok t) :
    parseText t.render = .ok t ∧ (∀ u, parseText t.render = .ok u → u.render = t.render) ∧
      ∀ w ∈ t.words, '\n' ∈ w.spelling → w.kind = .string := by
  obtain ⟨front,last,ts,lexed,ended,rfl,lines⟩ := parseTextProgram accepted
  obtain ⟨tiles,same,_,tiling⟩ := @scanTiles (Scanner.ofText text) [] _ rfl lexed
  have spelt : ∀ x ∈ front, x.kind ≠ .newline → Spelt x := by
    intro x member plain
    exact tilingSpelt tiling (by simp [same,member]) (linesWord lines member) plain
  have outside : NewlinesOutside front := by
    intro before newline after split kind
    have whole : tiles.map Tile.token = before ++ newline :: (after ++ [last]) := by simp [same,split]
    exact newlineDepth tiling whole kind
  have again := renderParse (linesSentences lines outside spelt)
  refine ⟨again,?_,?_⟩
  · intro u read
    rw [Except.ok.inj (again.symm.trans read)]
  · intro w member newline
    rw [Tree.words,Tree.program,Tree.linesWordsRead lines,plainWords] at member
    obtain ⟨x,inside,rfl⟩ := List.mem_map.mp member
    obtain ⟨inside,plain⟩ := List.mem_filter.mp inside
    obtain ⟨_,lexes⟩ := spelt x inside (by simpa using plain)
    exact lexesNewline lexes newline

def crowded : String :=
  "jutsu f(a,b)\x7bx+=(1) # one\n if f(a) \x7b\n\x7d release \"two\n\\\"three\"\x7d\n\n\nprint -2**3"

def crowdedTree : Tree :=
  .program [.definition "f" ["a","b"]
      [.assignment (.identifier "x") (.binary "+" (.identifier "x") (.expression (.integer "1"))),
        .conditional (.expression (.call "f" [.expression (.identifier "a")])) [],
        .returned (.expression (.string "two\n\\\"three"))],
    .call "print" [.expression (.unary "-" (.binary "**" (.integer "2") (.integer "3")))]]

def crowdedAgain : String :=
  "jutsu f ( a , b ) \x7b x += ( 1 ) if f ( a ) \x7b \x7d release \"two\n\\\"three\" \x7d\nprint - 2 ** 3\n"

theorem crowdedReads : parseText crowded = .ok crowdedTree ∧ crowdedTree.render = crowdedAgain ∧
    parseText crowdedAgain = .ok crowdedTree ∧
    (∀ u, parseText crowdedTree.render = .ok u → u.render = crowdedTree.render) ∧
    ∀ w ∈ crowdedTree.words, '\n' ∈ w.spelling → w.kind = .string := by
  have accepted : parseText crowded = .ok crowdedTree := by decide +kernel
  have written : crowdedTree.render = crowdedAgain := by decide +kernel
  obtain ⟨again,fixed,newlines⟩ := renderReads crowded crowdedTree accepted
  exact ⟨accepted,written,written ▸ again,fixed,newlines⟩

end JutsuSyntax
