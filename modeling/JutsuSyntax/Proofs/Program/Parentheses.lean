import JutsuSyntax.Proofs.Program.Acceptance
import JutsuSyntax.Proofs.Tree.Parentheses

/-! Formulas as programs. Written with no more parentheses than it needs, in whatever layout, a
formula is read as itself. -/
namespace JutsuSyntax
open Grammar

variable {t : Tree} {tokens : List Token} {place : Location} {text : String}

theorem formulaParse (h : Tree.Formula t) (words : tokens.map Token.word = t.enclosed.operandWords) :
    parse (tokens ++ [Token.finish place]) = .ok (.program [.expression t.enclosed]) := by
  have operand := formulaDerives h .disjunction (formulaRank h) tokens words
  have unended : ∀ x ∈ tokens, x.kind ≠ .finish := by
    intro x member ended
    have occurs := operandOccurs operand x member
    rw [ended] at occurs
    contradiction
  refine linesParse ?_
  rw [takeBefore unended rfl]
  exact .last (.expression operand)

theorem formulaParseText (h : Tree.Formula t) (read : tokenize text = .ok (tokens ++ [Token.finish place]))
    (words : tokens.map Token.word = t.enclosed.operandWords) :
    parseText text = .ok (.program [.expression t.enclosed]) := by
  simp [parseText,read,formulaParse h words,Except.mapError]

theorem formulaScan (h : Tree.Formula t) : ∃ tokens place,
    tokenize (String.ofList (Tree.spaced t.enclosed.operandWords)) = .ok (tokens ++ [Token.finish place]) ∧
      tokens.map Token.word = t.enclosed.operandWords := by
  have writable := Tree.formulaWritten h
  have written : Writes 0 t.enclosed.operandWords (Tree.spaced t.enclosed.operandWords) :=
    spacedWrites writable
  obtain ⟨tokens,place,scanned,same⟩ := writesScan written .start
  refine ⟨tokens,place,?_,?_⟩
  · rw [tokenizeCharacters]
    exact scanned
  · have each : ∀ w ∈ tokens.map Token.bare, w.Writable := same ▸ writable
    rw [← same]
    exact List.map_congr_left (fun x member => (each x.bare (List.mem_map_of_mem member)).token rfl)

theorem enclosedParses (t : Tree) (h : Tree.Formula t) :
    (Tree.expression t.enclosed).unmarked = t ∧
    parseText (String.ofList (Tree.spaced t.enclosed.operandWords)) =
      .ok (.program [.expression t.enclosed]) ∧
    ∀ text tokens place, tokenize text = .ok (tokens ++ [Token.finish place]) →
      tokens.map Token.word = t.enclosed.operandWords →
      parseText text = .ok (.program [.expression t.enclosed]) := by
  obtain ⟨tokens,place,read,words⟩ := formulaScan h
  refine ⟨Tree.unmarkedEnclosed h,formulaParseText h read words,?_⟩
  intro text tokens place read words
  exact formulaParseText h read words

def knotted : Tree :=
  .binary "**" (.unary "-" (.identifier "a")) (.unary "-" (.binary "**"
    (.call "f" [.binary "==" (.unary "!" (.boolean true)) (.integer "2"),.string "s"]) (.integer "3")))

def knottedText : String := "( - a ) ** - f ( ( ! True ) == 2 , \"s\" ) ** 3"

theorem knottedParses : Tree.Formula knotted ∧
    String.ofList (Tree.spaced knotted.enclosed.operandWords) = knottedText ∧
    (Tree.expression knotted.enclosed).unmarked = knotted ∧
    parseText knottedText = .ok (.program [.expression knotted.enclosed]) := by
  have a : (Word.name "a").Writable :=
    @Word.Writable.name ['a'] nofun (List.forall_mem_singleton.mpr rfl) (by decide)
  have f : (Word.name "f").Writable :=
    @Word.Writable.name ['f'] nofun (List.forall_mem_singleton.mpr rfl) (by decide)
  have two : (Word.integer "2").Writable :=
    @Word.Writable.integer ['2'] nofun (List.forall_mem_singleton.mpr rfl)
  have three : (Word.integer "3").Writable :=
    @Word.Writable.integer ['3'] nofun (List.forall_mem_singleton.mpr rfl)
  have s : (Word.string "s").Writable :=
    @Word.Writable.string ['s'] (Token.contentsQuotable (.plain (by decide) (by decide) .none))
  have test := @Tree.Formula.binary .equal _ _ (by decide)
    (@Tree.Formula.unary .bang _ (by decide) (.boolean true)) (.integer two)
  have called := Tree.Formula.call f (List.forall_mem_cons.mpr ⟨test,List.forall_mem_singleton.mpr (.string s)⟩)
  have power := @Tree.Formula.binary .starStar _ _ (by decide) called (.integer three)
  have formula : Tree.Formula knotted :=
    @Tree.Formula.binary .starStar _ _ (by decide) (@Tree.Formula.unary .minus _ (by decide) (.identifier a))
      (@Tree.Formula.unary .minus _ (by decide) power)
  have written : String.ofList (Tree.spaced knotted.enclosed.operandWords) = knottedText := by decide
  obtain ⟨same,read,_⟩ := enclosedParses knotted formula
  exact ⟨formula,written,same,written ▸ read⟩

end JutsuSyntax
