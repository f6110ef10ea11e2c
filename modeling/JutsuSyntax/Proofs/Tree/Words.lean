import JutsuSyntax.Proofs.Program.Acceptance
import JutsuSyntax.Tree.Words

/-! A tree keeps every word of the program that it was read from, in order: written back, it gives
the tokens again, newlines apart. -/
namespace JutsuSyntax
open Token (Symbol)
open Word (symbol)

variable {token : Token} {tokens others : List Token} {s : Symbol}

def plainWords (tokens : List Token) : List Word :=
  (tokens.filter (fun x => x.kind ≠ .newline)).map Token.word

theorem plainAppend : plainWords (tokens ++ others) = plainWords tokens ++ plainWords others := by
  simp [plainWords]

theorem plainNewline (kind : token.kind = .newline) : plainWords (token :: tokens) = plainWords tokens := by
  simp [plainWords,kind]

theorem plainSymbol (kind : token.kind = .symbol s) :
    plainWords (token :: tokens) = symbol s :: plainWords tokens := by
  simp [plainWords,Token.word,kind,Token.Kind.hasText,symbol]

theorem plainText {kind : Token.Kind} (same : token.kind = kind) (carries : kind.hasText) :
    plainWords (token :: tokens) = ⟨kind,some token.payload⟩ :: plainWords tokens := by
  subst same
  have other : token.kind ≠ .newline := fun same => by simp [same,Token.Kind.hasText] at carries
  simp [plainWords,Token.word,other,carries]

namespace Tree
open Grammar

theorem operatorWordSpelling (s : Symbol) : operatorWord s.spelling = [symbol s] := by
  cases s <;> decide

theorem augmentedWordSpelling {operator : Symbol} (applies : s.augments = some operator) :
    augmentedWord operator.spelling = [symbol s] := by
  cases s <;> cases applies <;> decide

mutual
theorem operandWordsRead {l tokens t} : Operand l tokens t → operandWords t = plainWords tokens
  | .tighter _ only | .unsigned _ only | .base only => operandWordsRead only
  | .chain _ _ kind first last | .power kind first last => by
    rw [plainAppend,plainSymbol kind,← operandWordsRead first,← operandWordsRead last,binary,
      operandWords,Option.getD_some,operatorWordSpelling]
    simp
  | .signed _ kind operand => by
    rw [plainSymbol kind,← operandWordsRead operand,unary,operandWords,Option.getD_some,
      operatorWordSpelling]
    rfl
  | .integer kind | .string kind | .name kind => (@plainText _ [] _ kind rfl).symm
  | .truth kind | .falsity kind => (@plainSymbol _ [] _ kind).symm
  | .paren opens inner closes => by
    rw [List.cons_append,plainSymbol opens,plainAppend,plainSymbol closes,← operandWordsRead inner]
    rfl
  | .call named opens inner closes => by
    rw [List.cons_append,List.cons_append,plainText named rfl,plainSymbol opens,plainAppend,
      plainSymbol closes,← argumentWordsRead inner]
    rfl
theorem argumentWordsRead {tokens ts} : Arguments tokens ts →
    argumentWords (ts.map argument) = plainWords tokens
  | .none => rfl
  | .one only => operandWordsRead only
  | .more first kind rest => by
    rw [plainAppend,plainSymbol kind,← operandWordsRead first,← argumentWordsRead rest]
    rfl
end

theorem augmentedWords (name operator : String) (left right : Tree) :
    statementWords (assignment (identifier name) (binary operator left right)) =
      .name name :: (augmentedWord operator ++ operandWords right) := rfl

def bodyWords (statements : List Tree) : List Word :=
  symbol .openBrace :: (statementsWords statements ++ [symbol .closeBrace])

theorem conditionalWords (condition : Tree) (statements : List Tree) :
    statementWords (conditional condition statements) =
      symbol .ifWord :: (expressionWords condition ++ bodyWords statements) := by
  cases statements <;> rfl

theorem parameterWordsRead {names} (h : Parameters tokens names) (later : Bool) (statements : List Tree) :
    parameterWords later (names.map identifier ++ [body statements]) =
      (if later && !names.isEmpty then [symbol .comma] else []) ++ plainWords tokens ++
        symbol .closeParen :: bodyWords statements := by
  induction h generalizing later with
  | none => cases later <;> rfl
  | one kind =>
    rw [plainText kind rfl]
    cases later <;> rfl
  | more kind separator rest ih =>
    rw [plainText kind rfl,plainSymbol separator,List.map_cons,List.cons_append,identifier,leaf,
      parameterWords,ih]
    cases later <;> simp [Word.name]

mutual
theorem statementWordsRead {tokens t} : Statement tokens t → statementWords t = plainWords tokens
  | .expression only => operandWordsRead only
  | .assignment named kind value => by
    rw [plainText named rfl,plainSymbol kind,← operandWordsRead value]
    rfl
  | .augmented named kind applies value => by
    rw [plainText named rfl,plainSymbol kind,← operandWordsRead value,augmentedWords,
      augmentedWordSpelling applies]
    rfl
  | .returned kind value | .print kind value => by
    rw [plainSymbol kind,← operandWordsRead value]
    rfl
  | .conditional kind condition body => by
    rw [conditionalWords,List.cons_append,plainSymbol kind,plainAppend,← operandWordsRead condition,
      ← bodyWordsRead body]
    rfl
  | .definition kind named opens list closes body => by
    rw [List.cons_append,List.cons_append,List.cons_append,plainSymbol kind,plainText named rfl,
      plainSymbol opens,plainAppend,plainSymbol closes,← bodyWordsRead body,definition,statementWords,
      parameterWordsRead list]
    rfl
theorem bodyWordsRead {tokens ts} : Body tokens ts → bodyWords ts = plainWords tokens
  | .braces opens inner closes => by
    rw [List.cons_append,plainSymbol opens,plainAppend,plainSymbol closes,← statementsWordsRead inner]
    rfl
theorem statementsWordsRead {tokens ts} : Statements tokens ts → statementsWords ts = plainWords tokens
  | .none => rfl
  | .blank kind rest => by rw [plainNewline kind,statementsWordsRead rest]
  | .more first _ rest => by
    rw [plainAppend,← statementWordsRead first,← statementsWordsRead rest,statementsWords]
end

theorem linesWordsRead {ts} (h : Lines tokens ts) : statementsWords ts = plainWords tokens := by
  induction h with
  | none => rfl
  | last only => rw [statementsWords,statementWordsRead only,statementsWords,List.append_nil]
  | blank kind rest ih => rw [plainNewline kind,ih]
  | line first kind rest ih =>
    rw [plainAppend,plainNewline kind,statementsWords,statementWordsRead first,ih]

end Tree

theorem parseWords {t : Tree} (accepted : parse tokens = .ok t) :
    t.words = plainWords (tokens.takeWhile Token.isWord) := by
  obtain ⟨ts,rfl,lines⟩ := parseLines accepted
  exact Tree.linesWordsRead lines

theorem parseKeepsWords (tokens : List Token) (t : Tree) (accepted : parse tokens = .ok t) :
    t.words = ((tokens.takeWhile (·.kind ≠ .finish)).filter (·.kind ≠ .newline)).map Token.word ∧
      ∀ others, parse others = .ok t →
        ((others.takeWhile (·.kind ≠ .finish)).filter (·.kind ≠ .newline)).map Token.word =
          ((tokens.takeWhile (·.kind ≠ .finish)).filter (·.kind ≠ .newline)).map Token.word := by
  have here := parseWords accepted
  refine ⟨here,fun others again => ?_⟩
  exact (parseWords again).symm.trans here

def scattered : List Token :=
  [⟨.newline,none,⟨1,1⟩⟩,⟨.name,some "x",⟨2,1⟩⟩,⟨.symbol .plusAssign,none,⟨2,3⟩⟩,
   ⟨.symbol .openParen,none,⟨2,6⟩⟩,⟨.integer,none,⟨2,7⟩⟩,⟨.symbol .closeParen,none,⟨2,8⟩⟩,
   ⟨.newline,none,⟨2,9⟩⟩,⟨.symbol .ifWord,none,⟨3,1⟩⟩,⟨.name,some "x",⟨3,4⟩⟩,
   ⟨.symbol .openBrace,none,⟨3,6⟩⟩,⟨.newline,none,⟨3,7⟩⟩,⟨.symbol .closeBrace,none,⟨4,1⟩⟩,
   Token.finish ⟨4,2⟩,⟨.symbol .colon,none,⟨4,3⟩⟩]

def gathered : Tree :=
  .program [.assignment (.identifier "x") (.binary "+" (.identifier "x") (.expression (.integer ""))),
    .conditional (.expression (.identifier "x")) []]

theorem scatteredWords : parse scattered = .ok gathered ∧
    gathered.words = [.name "x",symbol .plusAssign,symbol .openParen,.integer "",symbol .closeParen,
      symbol .ifWord,.name "x",symbol .openBrace,symbol .closeBrace] ∧
    gathered.words =
      ((scattered.takeWhile (·.kind ≠ .finish)).filter (·.kind ≠ .newline)).map Token.word := by
  have accepted : parse scattered = .ok gathered := by decide +kernel
  exact ⟨accepted,rfl,(parseKeepsWords scattered gathered accepted).1⟩

end JutsuSyntax
