import JutsuSyntax.Proofs.Program.Brackets
import JutsuSyntax.Proofs.Token.LineEndings
import Mathlib.Data.List.Nodup

/-! Programs with a carriage return at the end of every line. The parser reads no places but writes
them into its errors, so that of an error only the column of a newline may change. -/
namespace JutsuSyntax
open Cursor

variable {before rest tokens : List Token} {depth : Nat} {tile : Tile} {tiles : List Tile}
  {token found : Token} {e : ParseError} {makes : List Token → Prop}

theorem Tile.Fits.filled {front behind : List Char} (fits : tile.Fits front depth behind)
    (word : tile.token.kind ≠ .finish) : tile.spelling ≠ [] := by
  rcases fits.stands with ⟨kind,_⟩ | ⟨ended,_⟩ | lexes
  · simp [Tile.spelling,Token.word,Word.spelling,kind]
  · exact absurd ended word
  · exact lexes.filled

theorem Tiling.places {front : List Char} (h : Tiling front depth tiles) :
    ∀ tile ∈ tiles, ∃ more, tile.token.location = Location.behind (front ++ more) := by
  induction h with
  | last fits ended => exact List.forall_mem_singleton.mpr ⟨_,fits.located⟩
  | more fits word rest ih =>
    refine List.forall_mem_cons.mpr ⟨⟨_,fits.located⟩,fun tile member => ?_⟩
    obtain ⟨more,located⟩ := ih tile member
    exact ⟨_,by rw [located,List.append_assoc]⟩

theorem Tiling.apart {front : List Char} (h : Tiling front depth tiles) :
    ((tiles.map Tile.token).map Token.location).Nodup := by
  induction h with
  | last fits ended => exact List.nodup_singleton _
  | @more front depth tile tiles fits word rest ih =>
    refine List.nodup_cons.mpr ⟨fun member => ?_,ih⟩
    obtain ⟨_,inside,same⟩ := List.mem_map.mp member
    obtain ⟨later,member,rfl⟩ := List.mem_map.mp inside
    obtain ⟨more,located⟩ := rest.places later member
    have back : Location.behind (front ++ tile.gap ++ (tile.spelling ++ more)) =
        Location.behind (front ++ tile.gap) := by
      rw [← fits.located,← same,located]
      simp [Tile.text]
    exact fits.filled word (List.append_eq_nil_iff.mp (Location.behindGrows back)).1

def Location.returned (tokens : List Token) (place : Location) : Location :=
  if ∃ x ∈ tokens, x.kind = .newline ∧ x.location = place then ⟨place.line,place.column + 1⟩ else place

theorem movedReturned (apart : (tokens.map Token.location).Nodup) (member : token ∈ tokens) :
    token.moved (Location.returned tokens) = token.returned := by
  by_cases kind : token.kind = .newline
  · have found : ∃ x ∈ tokens, x.kind = .newline ∧ x.location = token.location :=
      ⟨token,member,kind,rfl⟩
    rw [Token.moved,Location.returned,if_pos found,Token.returned,if_pos kind]
  · have none : ¬ ∃ x ∈ tokens, x.kind = .newline ∧ x.location = token.location := by
      intro given
      obtain ⟨x,inside,newline,same⟩ := given
      exact kind (List.inj_on_of_nodup_map apart inside member same ▸ newline)
    rw [Token.moved,Location.returned,if_neg none,Token.returned,if_neg kind]

def ParseError.returned : ParseError → ParseError
  | unexpected expected found => unexpected expected found.returned
  | noAlternative context found => noAlternative context found.returned
  | badParameters function names commas location => badParameters function names commas location

def SyntaxError.returned : SyntaxError → SyntaxError
  | lexical e => lexical e
  | grammatical e => grammatical e.returned

theorem parametersPlace {function place} (tiling : Tiling [] 0 tiles)
    (same : tiles.map Tile.token = before ++ found :: rest)
    (ends : EndsInParameters function place before found) :
    ∃ x ∈ tiles.map Tile.token, x.kind ≠ .newline ∧ x.location = place := by
  obtain ⟨front,keyword,name,opening,run,rfl,_,_,opens,_,only,_,first⟩ := ends
  cases run with
  | nil =>
    refine ⟨found,by simp [same],fun kind => ?_,Option.some.inj first⟩
    -- The parenthesis is still open there, and inside brackets a newline is layout.
    have outside := newlineDepth tiling same kind
    rw [openBrackets,List.foldl_append,List.foldl_cons,List.foldl_cons,List.foldl_cons,
      Grammar.openingDepth opens rfl] at outside
    exact absurd outside (Nat.succ_ne_zero _)
  | cons x run =>
    refine ⟨x,by simp [same],fun kind => ?_,Option.some.inj first⟩
    have parameter := only x List.mem_cons_self
    simp [isParameterToken,kind] at parameter

theorem blamedReturned (tiling : Tiling [] 0 tiles) (same : tiles.map Tile.token = before ++ found :: rest)
    (blamed : Blames makes before found e) :
    e.moved (Location.returned (tiles.map Tile.token)) = e.returned := by
  have member : found ∈ tiles.map Tile.token := by simp [same]
  cases e with
  | unexpected expected token =>
    obtain rfl := blamed.1
    exact congrArg (ParseError.unexpected expected) (movedReturned tiling.apart member)
  | noAlternative context token =>
    obtain rfl := blamed.1
    exact congrArg (ParseError.noAlternative context) (movedReturned tiling.apart member)
  | badParameters function names commas place =>
    obtain ⟨x,inside,other,rfl⟩ := parametersPlace tiling same blamed
    have stays := (movedReturned tiling.apart inside).trans (Token.returnedOther other)
    exact congrArg (ParseError.badParameters function names commas) (congrArg Token.location stays)

theorem parseBlames (failed : parse tokens = .error e) : ∃ before found rest,
    complete tokens = before ++ found :: rest ∧
      Blames (fun tokens => ∃ ts, Grammar.Lines tokens ts) before found e := by
  cases linesOutcome _ (completeEnds tokens) with
  | passes same unended settled fits =>
    rw [parseSettled settled (by simpa using same)] at failed
    contradiction
  | @fails passed back found rest e' same unended settled fits =>
    rw [parseSettled settled same] at failed
    cases failed
    exact ⟨passed ++ back,found,rest,same,fits.2⟩

theorem parseReturned {text : String} (read : tokenize text = .ok tokens) :
    parse (tokens.map Token.returned) = (parse tokens).mapError ParseError.returned := by
  obtain ⟨tiles,rfl,_,tiling⟩ := @scanTiles (Scanner.ofText text) [] _ rfl read
  obtain ⟨front,last,same,ended,_⟩ := tilingEnds tiling
  have returned : (tiles.map Tile.token).map Token.returned =
      (tiles.map Tile.token).map (Token.moved (Location.returned (tiles.map Tile.token))) :=
    List.map_congr_left (fun x member => (movedReturned tiling.apart member).symm)
  have moved := @parseMoved front (Location.returned (tiles.map Tile.token)) last ended
  rw [← same] at moved
  rw [returned,moved]
  cases parsed : parse (tiles.map Tile.token) with
  | ok t => rfl
  | error e =>
    obtain ⟨before,found,rest,split,blamed⟩ := parseBlames parsed
    rw [same,completeEnded ended,← same] at split
    exact congrArg Except.error (blamedReturned tiling split blamed)

theorem returnsForgotten (text : String) (unquoted : '"' ∉ text.toList) :
    tokenize (returnedText text) = (tokenize text).map (List.map Token.returned) ∧
    parseText (returnedText text) = (parseText text).mapError SyntaxError.returned := by
  have lexed := tokenizeReturned unquoted
  refine ⟨lexed,?_⟩
  rw [parseText,parseText,lexed]
  cases read : tokenize text with
  | error e => rfl
  | ok tokens =>
    simp only [Except.map]
    rw [parseReturned read]
    cases parse tokens <;> rfl

def broken : String := "f(\n1\r) # a\n\ny =\r\n"

def brokenTokens : List Token :=
  [⟨.name,some "f",⟨1,1⟩⟩,⟨.symbol .openParen,none,⟨1,2⟩⟩,⟨.integer,some "1",⟨2,1⟩⟩,
   ⟨.symbol .closeParen,none,⟨2,3⟩⟩,⟨.newline,none,⟨3,1⟩⟩,⟨.name,some "y",⟨4,1⟩⟩,
   ⟨.symbol .assign,none,⟨4,3⟩⟩,⟨.newline,none,⟨4,5⟩⟩,Token.finish ⟨5,1⟩]

theorem brokenForgotten : '"' ∉ broken.toList ∧
    returnedText broken = "f(\r\n1\r) # a\r\n\r\ny =\r\r\n" ∧
    tokenize (returnedText broken) = .ok (brokenTokens.map Token.returned) ∧
    parseText broken = .error (.grammatical (.noAlternative .statement ⟨.newline,none,⟨4,5⟩⟩)) ∧
    parseText (returnedText broken) =
      .error (.grammatical (.noAlternative .statement ⟨.newline,none,⟨4,6⟩⟩)) := by
  have unquoted : '"' ∉ broken.toList := by decide +kernel
  have read : tokenize broken = .ok brokenTokens := by decide +kernel
  have failed : parseText broken =
      .error (.grammatical (.noAlternative .statement ⟨.newline,none,⟨4,5⟩⟩)) := by decide +kernel
  obtain ⟨tokens,result⟩ := returnsForgotten broken unquoted
  refine ⟨unquoted,by decide +kernel,tokens.trans ?_,failed,result.trans ?_⟩
  · rw [read]
    rfl
  · rw [failed]
    rfl

end JutsuSyntax
