import JutsuSyntax.Proofs.Token.Pieces
import JutsuSyntax.Token.Basic

/-! The tokens of a text and the layout between them tile the text: nothing is read twice, nothing
is dropped but layout, and every token stands where it says. -/
namespace JutsuSyntax
open Token (Lexes Piece Splits firstSplits)

namespace Location

def behind (before : List Char) : Location :=
  ⟨1 + before.count '\n',1 + (before.reverse.takeWhile (· ≠ '\n')).length⟩

theorem afterBehind (before : List Char) (c : Char) : (behind before).after c = behind (before ++ [c]) := by
  unfold after behind
  by_cases newline : c = '\n'
  · simp [newline,Nat.add_assoc]
  · have other : ('\n' == c) = false := by simpa using Ne.symm newline
    simp [newline,List.count_append,Nat.add_comm]

theorem afterTextBehind (before text : List Char) :
    (behind before).afterText text = behind (before ++ text) := by
  induction text generalizing before with
  | nil => simp
  | cons c text ih =>
    rw [afterTextCons,afterBehind,ih,List.append_assoc]
    rfl

end Location

def Token.depthPast (depth : Nat) (token : Token) : Nat :=
  match token.kind with
  | .symbol s => s.depthAfter depth
  | _ => depth

/-- The characters that stand between two tokens, with the text behind them: newlines only inside
brackets, and a comment takes the newline that ends it. -/
inductive Gap (depth : Nat) : List Char → List Char → Prop where
  | none {rest} : Gap depth [] rest
  | blank {c gap rest} (blank : c = ' ' ∨ c = '\t' ∨ c = '\r') (more : Gap depth gap rest) :
      Gap depth (c :: gap) rest
  | newline {gap rest} (inside : depth ≠ 0) (more : Gap depth gap rest) :
      Gap depth ('\n' :: gap) rest
  | comment {line gap rest} (within : '\n' ∉ line) (more : Gap depth gap rest) :
      Gap depth ('#' :: (line ++ '\n' :: gap)) rest
  | lastComment {line} (within : '\n' ∉ line) : Gap depth ('#' :: line) []

structure Tile where
  gap : List Char
  token : Token

namespace Tile

def spelling (tile : Tile) : List Char := tile.token.word.spelling

def text (tile : Tile) : List Char := tile.gap ++ tile.spelling

def Stands (depth : Nat) (token : Token) (rest : List Char) : Prop :=
  token.kind = .newline ∧ token.lexeme = none ∧ depth = 0 ∨
  token.kind = .finish ∧ token.lexeme = none ∧ rest = [] ∨
  Lexes token.kind token.lexeme token.word.spelling rest

structure Fits (before : List Char) (depth : Nat) (tile : Tile) (rest : List Char) : Prop where
  layout : Gap depth tile.gap (tile.spelling ++ rest)
  located : tile.token.location = Location.behind (before ++ tile.gap)
  stands : Stands depth tile.token rest

end Tile

def written (tiles : List Tile) : List Char := tiles.flatMap Tile.text

inductive Tiling : List Char → Nat → List Tile → Prop where
  | last {before depth tile} (fits : tile.Fits before depth []) (ended : tile.token.kind = .finish) :
      Tiling before depth [tile]
  | more {before depth tile tiles} (fits : tile.Fits before depth (written tiles))
      (word : tile.token.kind ≠ .finish)
      (rest : Tiling (before ++ tile.text) (tile.token.depthPast depth) tiles) :
      Tiling before depth (tile :: tiles)

variable {before text word rest : List Char} {depth : Nat} {tile : Tile} {tiles after : List Tile}
  {tokens : List Token} {kind : Token.Kind} {lexeme : Option String}

theorem lexesSpelling (h : Lexes kind lexeme word rest) (place : Location) :
    Token.word ⟨kind,lexeme,place⟩ = ⟨kind,lexeme⟩ ∧ Word.spelling ⟨kind,lexeme⟩ = word := by
  cases h <;> simp [Token.word,Token.Kind.hasText,Token.payload,Word.spelling,Word.text]

theorem lexesWord (h : Lexes kind lexeme word rest) : kind ≠ .finish ∧ kind ≠ .newline := by
  cases h <;> simp

theorem Tile.Fits.widen {front : List Char} (fits : tile.Fits (before ++ front) depth rest)
    (wider : Gap depth (front ++ tile.gap) (tile.spelling ++ rest)) :
    Tile.Fits before depth ⟨front ++ tile.gap,tile.token⟩ rest :=
  ⟨wider,by rw [fits.located,List.append_assoc],fits.stands⟩

theorem Tiling.widen {front : List Char} (h : Tiling (before ++ front) depth tiles)
    (wider : ∀ gap rest, gap ++ rest = written tiles → Gap depth gap rest →
      Gap depth (front ++ gap) rest) :
    ∃ wide, wide.map Tile.token = tiles.map Tile.token ∧ written wide = front ++ written tiles ∧
      Tiling before depth wide := by
  cases h with
  | @last _ _ tile fits ended =>
    have gap := wider tile.gap (tile.spelling ++ []) (by simp [written,Tile.text]) fits.layout
    refine ⟨[⟨front ++ tile.gap,tile.token⟩],rfl,?_,.last (fits.widen gap) ended⟩
    simp [written,Tile.text,Tile.spelling]
  | @more _ _ tile tiles fits word rest =>
    have gap := wider tile.gap _ (by simp [written,Tile.text]) fits.layout
    refine ⟨⟨front ++ tile.gap,tile.token⟩ :: tiles,rfl,?_,.more (fits.widen gap) word ?_⟩
    · simp [written,Tile.text,Tile.spelling]
    · rw [List.append_assoc] at rest
      simpa [Tile.text,Tile.spelling] using rest

theorem Tiling.step {token : Token} (located : token.location = Location.behind before)
    (stands : Tile.Stands depth token (written tiles)) (more : token.kind ≠ .finish)
    (rest : Tiling (before ++ token.word.spelling) (token.depthPast depth) tiles) :
    Tiling before depth (⟨[],token⟩ :: tiles) :=
  .more ⟨.none,by simpa using located,stands⟩ more rest

theorem yieldPast {s : Scanner} {c cs} {piece : Piece} (ahead : s.rest = c :: cs)
    (found : Piece.first c cs = .ok piece) (read : s.scan.result = .ok tokens) :
    ∃ later, (s.past piece).scan.result = .ok later ∧ tokens = s.yield piece ++ later := by
  rw [Scanner.scanOk ahead found] at read
  cases result : (s.past piece).scan.result with
  | error e => simp [Reply.map,Except.map,result] at read
  | ok later =>
    simp only [Reply.map,Except.map,result] at read
    cases read
    exact ⟨later,rfl,rfl⟩

theorem pieceTiles {s : Scanner} {piece : Piece} (splits : Splits text piece)
    (located : s.location = Location.behind before)
    (h : Tiling (before ++ piece.word) (s.depthPast piece) tiles) (behind : piece.rest = written tiles) :
    ∃ wide, wide.map Tile.token = s.yield piece ++ tiles.map Tile.token ∧
      written wide = piece.word ++ written tiles ∧ Tiling before s.depth wide := by
  cases splits with
  | blank blank => exact h.widen (fun _ _ _ => .blank blank)
  | newline =>
    by_cases outside : s.depth = 0
    · refine ⟨⟨[],⟨.newline,none,s.location⟩⟩ :: tiles,?_,rfl,?_⟩
      · simp [Scanner.yield,outside]
      · exact .step located (.inl ⟨rfl,rfl,outside⟩) nofun h
    · obtain ⟨wide,same,others⟩ := h.widen (fun _ _ _ => .newline outside)
      exact ⟨wide,by rw [same]; simp [Scanner.yield,outside],others⟩
  | @comment line rest within =>
    refine h.widen (fun gap rest _ layout => ?_)
    simpa using .comment within layout
  | @lastComment line within =>
    refine h.widen (fun gap rest same _ => ?_)
    obtain ⟨rfl,rfl⟩ := List.append_eq_nil_iff.mp (same.trans behind.symm)
    simpa using .lastComment within
  | @token kind lexeme word rest lexes =>
    obtain ⟨whole,spelling⟩ := lexesSpelling lexes s.location
    obtain ⟨more,_⟩ := lexesWord lexes
    refine ⟨⟨[],⟨kind,lexeme,s.location⟩⟩ :: tiles,rfl,?_,?_⟩
    · simp [written,Tile.text,Tile.spelling,whole,spelling]
    · refine .step located (.inr (.inr ?_)) more ?_
      · rw [whole,spelling,← behind]
        exact lexes
      · rw [whole,spelling]
        cases kind <;> exact h

theorem scanTiles (s : Scanner) {before tokens} (located : s.location = Location.behind before)
    (read : s.scan.result = .ok tokens) :
    ∃ tiles, tiles.map Tile.token = tokens ∧ s.rest = written tiles ∧ Tiling before s.depth tiles := by
  induction s using Scanner.scanInduct generalizing before tokens with
  | ended s ahead =>
    rw [Scanner.scanNil ahead] at read
    cases read
    refine ⟨[⟨[],Token.finish s.location⟩],rfl,ahead,.last ⟨.none,?_,?_⟩ rfl⟩
    · simpa [Token.finish] using located
    · exact .inr (.inl ⟨rfl,rfl,rfl⟩)
  | fails s c cs fault ahead found =>
    rw [Scanner.scanError ahead found] at read
    cases fault <;> contradiction
  | passes s c cs piece ahead found ih =>
    obtain ⟨later,rest,rfl⟩ := yieldPast ahead found read
    have moved : (s.past piece).location = Location.behind (before ++ piece.word) := by
      rw [← Location.afterTextBehind,← located]
      rfl
    obtain ⟨tiles,rfl,behind,tiling⟩ := ih moved rest
    obtain ⟨wide,same,text,whole⟩ := pieceTiles (firstSplits.mp found) located tiling behind
    refine ⟨wide,same,?_,whole⟩
    rw [text,← behind,ahead]
    exact (Piece.firstAppend found).1.symm

def openBrackets (tokens : List Token) : Nat := tokens.foldl Token.depthPast 0

theorem tilingFits (h : Tiling before depth tiles) {front : List Tile} (split : tiles = front ++ tile :: after) :
    tile.Fits (before ++ written front) ((front.map Tile.token).foldl Token.depthPast depth)
      (written after) := by
  induction h generalizing front with
  | last fits ended =>
    cases front with
    | nil =>
      cases split
      simpa [written] using fits
    | cons first others => simp at split
  | more fits word rest ih =>
    cases front with
    | nil =>
      cases split
      simpa [written] using fits
    | cons first others =>
      obtain ⟨rfl,same⟩ := List.cons.inj split
      simpa [written] using ih same

theorem tilingEnds (h : Tiling before depth tiles) : ∃ front last,
    tiles.map Tile.token = front ++ [last] ∧ last.kind = .finish ∧ ∀ x ∈ front, x.kind ≠ .finish := by
  induction h with
  | @last _ _ tile fits ended => exact ⟨[],tile.token,rfl,ended,nofun⟩
  | @more _ _ tile tiles fits word rest ih =>
    obtain ⟨front,last,same,ended,others⟩ := ih
    refine ⟨tile.token :: front,last,by rw [List.map_cons,same]; rfl,ended,?_⟩
    exact List.forall_mem_cons.mpr ⟨word,others⟩

theorem tokenizeEnds {text : String} (read : tokenize text = .ok tokens) :
    ∃ front last, tokens = front ++ [last] ∧ last.kind = .finish ∧ ∀ x ∈ front, x.kind ≠ .finish := by
  obtain ⟨tiles,rfl,_,tiling⟩ := @scanTiles (Scanner.ofText text) [] tokens rfl read
  exact tilingEnds tiling

theorem tokenizeTiles (text : String) (tokens : List Token) (read : tokenize text = .ok tokens) :
    ∃ tiles : List Tile, tiles.map Tile.token = tokens ∧ text.toList = written tiles ∧
      (∃ front last, tokens = front ++ [last] ∧ last.kind = .finish ∧
        ∀ x ∈ front, x.kind ≠ .finish) ∧
      ∀ before tile after, tiles = before ++ tile :: after →
        tile.Fits (written before) (openBrackets (before.map Tile.token)) (written after) := by
  obtain ⟨tiles,rfl,whole,tiling⟩ := @scanTiles (Scanner.ofText text) [] tokens rfl read
  exact ⟨tiles,rfl,whole,tilingEnds tiling,fun _ _ _ split => tilingFits tiling split⟩

def nested : String := "f(\n 1) # one\nx"

def nestedTokens : List Token :=
  [⟨.name,some "f",⟨1,1⟩⟩,⟨.symbol .openParen,none,⟨1,2⟩⟩,⟨.integer,some "1",⟨2,2⟩⟩,
   ⟨.symbol .closeParen,none,⟨2,3⟩⟩,⟨.name,some "x",⟨3,1⟩⟩,Token.finish ⟨3,2⟩]

theorem nestedTiles : tokenize nested = .ok nestedTokens ∧
    ∃ tiles : List Tile, tiles.map Tile.token = nestedTokens ∧ nested.toList = written tiles ∧
      (∃ front last, nestedTokens = front ++ [last] ∧ last.kind = .finish ∧
        ∀ x ∈ front, x.kind ≠ .finish) ∧
      ∀ before tile after, tiles = before ++ tile :: after →
        tile.Fits (written before) (openBrackets (before.map Tile.token)) (written after) := by
  have read : tokenize nested = .ok nestedTokens := by decide +kernel
  exact ⟨read,tokenizeTiles nested nestedTokens read⟩

end JutsuSyntax
