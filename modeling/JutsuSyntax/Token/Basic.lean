import JutsuSyntax.Token.Symbol

/-! Tokens: what they are, where they stand, what they carry and how listings and messages show
them; words are tokens without their places. Lines and columns are counted from one. -/
namespace JutsuSyntax

structure Location where
  line : Nat
  column : Nat
  deriving DecidableEq, Repr

namespace Location

def start : Location := ⟨1,1⟩

def after (place : Location) (c : Char) : Location :=
  if c = '\n' then ⟨place.line + 1,1⟩ else ⟨place.line,place.column + 1⟩

def afterText (place : Location) (text : List Char) : Location := text.foldl after place

@[simp] theorem afterTextNil (place : Location) : place.afterText [] = place := rfl

@[simp] theorem afterTextCons (place : Location) (c : Char) (text : List Char) :
    place.afterText (c :: text) = (place.after c).afterText text := rfl

theorem afterTextAppend (place : Location) (front back : List Char) :
    place.afterText (front ++ back) = (place.afterText front).afterText back :=
  List.foldl_append

def display (place : Location) : String := s!"line {place.line}, column {place.column}"

end Location

namespace Token

inductive Kind where
  | symbol (s : Symbol)
  | integer
  | string
  | name
  | newline
  | finish
  deriving DecidableEq, Repr

namespace Kind

def title : Kind → String
  | symbol s => s.title
  | integer => "INT"
  | string => "STRING"
  | name => "NAME"
  | newline => "NEWLINE"
  | finish => "EOF"

def spelling? : Kind → Option String
  | symbol s => some s.spelling
  | _ => none

def display : Kind → String
  | symbol s => s!"'{s.spelling}'"
  | integer => "integer literal"
  | string => "string literal"
  | name => "name"
  | newline => "newline"
  | finish => "end of input"

def all : List Kind := Symbol.all.map symbol ++ [integer,string,name,newline,finish]

def ofTitle? (title : String) : Option Kind := all.find? (fun kind => kind.title == title)

end Kind
end Token

/-- A token read from a text carries a lexeme exactly if it is an integer, a string (without
its quotes) or a name; token lists from elsewhere may break this rule. -/
structure Token where
  kind : Token.Kind
  lexeme : Option String
  location : Location
  deriving DecidableEq, Repr

namespace Token

def finish (location : Location) : Token := ⟨.finish,none,location⟩

def payload (token : Token) : String := token.lexeme.getD ""

def display (token : Token) : String :=
  match token.lexeme with
  | some text => s!"\x7b{token.kind.title}, {text}\x7d"
  | none => s!"\x7b{token.kind.title}\x7d"

def description (token : Token) : String :=
  match token.kind, token.lexeme with
  | .name, some text => s!"name '{text}'"
  | .integer, some text => s!"integer literal {text}"
  | .string, some text => s!"string literal \"{text}\""
  | kind, _ => kind.display

end Token

def Token.Kind.hasText : Token.Kind → Bool
  | integer | string | name => true
  | _ => false

structure Word where
  kind : Token.Kind
  lexeme : Option String
  deriving DecidableEq, Repr

def Token.word (t : Token) : Word := ⟨t.kind,if t.kind.hasText then some t.payload else none⟩

namespace Word

def symbol (s : Token.Symbol) : Word := ⟨.symbol s,none⟩
def integer (digits : String) : Word := ⟨.integer,some digits⟩
def string (contents : String) : Word := ⟨.string,some contents⟩
def name (letters : String) : Word := ⟨.name,some letters⟩

def text (w : Word) : List Char := (w.lexeme.getD "").toList

def spelling (w : Word) : List Char :=
  match w.kind with
  | .symbol s => s.characters
  | .integer | .name => w.text
  | .string => '"' :: (w.text ++ ['"'])
  | .newline => ['\n']
  | .finish => []

end Word

end JutsuSyntax
