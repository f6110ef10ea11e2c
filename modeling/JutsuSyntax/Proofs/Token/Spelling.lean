import JutsuSyntax.Proofs.Token.Joining
import JutsuSyntax.Tree.Words

/-! Reading words that are written with single spaces between them. A word that was read once is
read again in front of any layout. -/
namespace JutsuSyntax
open Token (Ended Lexes Piece Splits breaks breakPlain firstComplete prefixBefore symbolUnbroken)

variable {kind : Token.Kind} {lexeme : Option String} {word rest : List Char} {c : Char}
  {token : Token} {tokens : List Token}

theorem Token.Ended.break {inside : Char → Bool} (outside : inside c = false) (rest : List Char) :
    Ended inside (c :: rest) := by
  intro d head
  cases head
  exact outside

theorem Token.Lexes.break (h : Lexes kind lexeme word rest) (member : c ∈ breaks) (more : List Char) :
    Lexes kind lexeme word (c :: more) := by
  obtain ⟨letter,digit⟩ := breakPlain member
  cases h with
  | operator table longest =>
    refine .operator table (fun entry inside starts => ?_)
    exact (prefixBefore starts (symbolUnbroken inside member)).length_le
  | reserved table ended => exact .reserved table (.break letter more)
  | name filled only free ended => exact .name filled only free (.break letter more)
  | integer filled only ended => exact .integer filled only (.break digit more)
  | string contents => exact .string contents

theorem Token.Lexes.filled (h : Lexes kind lexeme word rest) : word ≠ [] := by
  cases h with
  | @operator s _ table longest => exact Symbol.charactersNonempty s
  | @reserved s _ table ended => exact Symbol.charactersNonempty s
  | name filled => exact filled
  | integer filled => exact filled
  | string contents => exact List.cons_ne_nil _ _

def Spelt (token : Token) : Prop := ∃ rest, Lexes token.kind token.lexeme token.word.spelling rest

theorem Spelt.proper (h : Spelt token) : token.kind ≠ .finish ∧ token.kind ≠ .newline := by
  obtain ⟨rest,lexes⟩ := h
  exact lexesWord lexes

theorem wordScan (lexes : Lexes token.kind token.lexeme word rest) (place : Location) (depth : Nat) :
    Scanner.scan ⟨word ++ rest,place,depth⟩ =
      (Scanner.scan ⟨rest,place.afterText word,token.depthPast depth⟩).map
        ({token with location := place} :: ·) := by
  obtain ⟨d,ds,same⟩ := List.exists_cons_of_ne_nil (List.append_ne_nil_of_left_ne_nil lexes.filled rest)
  have splits := Splits.token lexes
  rw [same] at splits
  rw [same,@Scanner.scanOk ⟨d :: ds,place,depth⟩ d ds _ rfl (firstComplete splits)]
  obtain ⟨kind,lexeme,_⟩ := token
  cases kind <;> rfl

theorem tokenizeCharacters (text : List Char) :
    tokenize (String.ofList text) = (Scanner.scan ⟨text,.start,0⟩).result := by
  rw [tokenize,Scanner.ofText,String.toList_ofList]

theorem spaceScan (rest : List Char) (place : Location) (depth : Nat) :
    Scanner.scan ⟨' ' :: rest,place,depth⟩ = Scanner.scan ⟨rest,place.after ' ',depth⟩ := by
  rw [@Scanner.scanOk ⟨' ' :: rest,place,depth⟩ ' ' rest ⟨.layout,[' '],rest⟩ rfl rfl]
  exact Reply.mapNil _

theorem spacedOne (w : Word) : Tree.spaced [w] = w.spelling := by
  simp [Tree.spaced]

theorem spacedMore (w v : Word) (ws : List Word) :
    Tree.spaced (w :: v :: ws) = w.spelling ++ ' ' :: Tree.spaced (v :: ws) := by
  simp [Tree.spaced,List.intercalate]

theorem spacedScan (tokens : List Token) (spelt : ∀ x ∈ tokens, Spelt x) (place : Location) (depth : Nat) :
    ∃ read finish, read.map (Token.moved .nowhere) = tokens.map (Token.moved .nowhere) ∧
      ∀ rest, Scanner.scan ⟨Tree.spaced (tokens.map Token.word) ++ '\n' :: rest,place,depth⟩ =
        (Scanner.scan ⟨'\n' :: rest,finish,tokens.foldl Token.depthPast depth⟩).map (read ++ ·) := by
  induction tokens generalizing place depth with
  | nil => exact ⟨[],place,rfl,fun rest => (Reply.mapNil _).symm⟩
  | cons token tokens ih =>
    obtain ⟨⟨_,lexes⟩,others⟩ := List.forall_mem_cons.mp spelt
    cases tokens with
    | nil =>
      refine ⟨[{token with location := place}],place.afterText token.word.spelling,rfl,fun rest => ?_⟩
      rw [List.map_singleton,spacedOne]
      exact wordScan (lexes.break (by decide) rest) place depth
    | cons next tokens =>
      obtain ⟨read,finish,same,behind⟩ :=
        ih others ((place.afterText token.word.spelling).after ' ') (token.depthPast depth)
      refine ⟨{token with location := place} :: read,finish,congrArg (token.moved .nowhere :: ·) same,?_⟩
      intro rest
      rw [List.map_cons,List.map_cons,spacedMore,List.append_assoc,List.cons_append,
        wordScan (lexes.break (by decide) _),spaceScan]
      exact (congrArg _ (behind rest)).trans (Reply.mapMap _ _ _)

end JutsuSyntax
