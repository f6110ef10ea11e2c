import JutsuSyntax.Token.Basic
import JutsuSyntax.Tree.Basic

/-! Writing a tree back: the words of its nodes in the order of the program, and the program as
text with single spaces between words and a newline behind each statement. -/
namespace JutsuSyntax.Tree
open Word (symbol)

def operatorWord (operator : String) : List Word :=
  (Token.Symbol.all.find? (fun s => s.spelling == operator)).toList.map symbol

def augmentedWord (operator : String) : List Word := operatorWord (operator ++ "=")

mutual
def operandWords : Tree → List Word
  | ⟨.expression,_,[inner]⟩ => symbol .openParen :: (operandWords inner ++ [symbol .closeParen])
  | ⟨.integer,value,_⟩ => [.integer (value.getD "")]
  | ⟨.string,value,_⟩ => [.string (value.getD "")]
  | ⟨.identifier,value,_⟩ => [.name (value.getD "")]
  | ⟨.boolean,value,_⟩ => [symbol (if value = some "1" then .trueWord else .falseWord)]
  | ⟨.unary,value,[operand]⟩ => operatorWord (value.getD "") ++ operandWords operand
  | ⟨.binary,value,[left,right]⟩ =>
    operandWords left ++ operatorWord (value.getD "") ++ operandWords right
  | ⟨.call,value,inner⟩ =>
    .name (value.getD "") :: symbol .openParen :: (argumentWords inner ++ [symbol .closeParen])
  | _ => []
def argumentWords : List Tree → List Word
  | [] => []
  | [⟨.argument,_,[⟨.expression,_,[inner]⟩]⟩] => operandWords inner
  | ⟨.argument,_,[⟨.expression,_,[inner]⟩]⟩ :: others =>
    operandWords inner ++ symbol .comma :: argumentWords others
  | _ => []
end

def expressionWords : Tree → List Word
  | ⟨.expression,_,[inner]⟩ => operandWords inner
  | _ => []

mutual
def statementWords : Tree → List Word
  | ⟨.assignment,_,[⟨.identifier,name,_⟩,⟨.binary,operator,[_,right]⟩]⟩ =>
    .name (name.getD "") :: (augmentedWord (operator.getD "") ++ operandWords right)
  | ⟨.assignment,_,[⟨.identifier,name,_⟩,value]⟩ =>
    .name (name.getD "") :: symbol .assign :: expressionWords value
  | ⟨.returned,_,[value]⟩ => symbol .releaseWord :: expressionWords value
  | ⟨.call,_,[⟨.argument,_,[value]⟩]⟩ => symbol .printWord :: expressionWords value
  | ⟨.conditional,_,[condition]⟩ =>
    symbol .ifWord :: (expressionWords condition ++ [symbol .openBrace,symbol .closeBrace])
  | ⟨.conditional,_,[condition,⟨.body,_,inner⟩]⟩ =>
    symbol .ifWord :: (expressionWords condition ++
      symbol .openBrace :: (statementsWords inner ++ [symbol .closeBrace]))
  | ⟨.definition,name,parts⟩ =>
    symbol .jutsuWord :: .name (name.getD "") :: symbol .openParen :: parameterWords false parts
  | value => expressionWords value
def statementsWords : List Tree → List Word
  | [] => []
  | t :: ts => statementWords t ++ statementsWords ts
def parameterWords (later : Bool) : List Tree → List Word
  | ⟨.identifier,name,_⟩ :: others =>
    (if later then [symbol .comma] else []) ++ .name (name.getD "") :: parameterWords true others
  | [⟨.body,_,inner⟩] =>
    symbol .closeParen :: symbol .openBrace :: (statementsWords inner ++ [symbol .closeBrace])
  | _ => []
end

def words (t : Tree) : List Word := statementsWords t.children

def spaced (words : List Word) : List Char := [' '].intercalate (words.map Word.spelling)

def render (t : Tree) : String :=
  String.ofList (t.children.flatMap (fun statement => spaced (statementWords statement) ++ ['\n']))

end JutsuSyntax.Tree
