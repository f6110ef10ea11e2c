/-! Tokens with a single spelling: brackets, punctuation, operators and reserved words. -/
namespace JutsuSyntax.Token

inductive Symbol where
  | openParen | closeParen | openBracket | closeBracket | openBrace | closeBrace
  | colon | bang | plus | minus | star | slash | percent | less | greater | assign | comma | dot
  | slashSlash | starStar | equal | notEqual | atMost | atLeast
  | plusAssign | minusAssign | starAssign | slashAssign | slashSlashAssign | starStarAssign
  | orWord | andWord | jutsuWord | trueWord | falseWord | ifWord | elifWord | elseWord
  | releaseWord | printWord
  deriving DecidableEq, Repr

namespace Symbol

def spelling : Symbol → String
  | openParen => "(" | closeParen => ")"
  | openBracket => "[" | closeBracket => "]"
  | openBrace => "\x7b" | closeBrace => "\x7d"
  | colon => ":" | bang => "!" | plus => "+" | minus => "-" | star => "*" | slash => "/"
  | percent => "%" | less => "<" | greater => ">" | assign => "=" | comma => "," | dot => "."
  | slashSlash => "//" | starStar => "**" | equal => "==" | notEqual => "!="
  | atMost => "<=" | atLeast => ">="
  | plusAssign => "+=" | minusAssign => "-=" | starAssign => "*=" | slashAssign => "/="
  | slashSlashAssign => "//=" | starStarAssign => "**="
  | orWord => "or" | andWord => "and" | jutsuWord => "jutsu"
  | trueWord => "True" | falseWord => "False"
  | ifWord => "if" | elifWord => "elif" | elseWord => "else"
  | releaseWord => "release" | printWord => "print"

def title : Symbol → String
  | openParen => "LPAREN" | closeParen => "RPAREN"
  | openBracket => "LSQB" | closeBracket => "RSQB"
  | openBrace => "LCB" | closeBrace => "RCB"
  | colon => "COLON" | bang => "NOT" | plus => "PLUS" | minus => "MINUS" | star => "MULT"
  | slash => "DIV" | percent => "PERCENT" | less => "LT" | greater => "GT" | assign => "EQ"
  | comma => "COMMA" | dot => "DOT"
  | slashSlash => "IDIV" | starStar => "DSTAR" | equal => "DEQ" | notEqual => "NEQ"
  | atMost => "LEQ" | atLeast => "GEQ"
  | plusAssign => "PLUSEQ" | minusAssign => "MINUSEQ" | starAssign => "MULTEQ"
  | slashAssign => "DIVEQ" | slashSlashAssign => "IDIVEQ" | starStarAssign => "DSTAREQ"
  | orWord => "OR" | andWord => "AND" | jutsuWord => "DEFINE"
  | trueWord => "TRUE" | falseWord => "FALSE"
  | ifWord => "IF" | elifWord => "ELIF" | elseWord => "ELSE"
  | releaseWord => "RETURN" | printWord => "PRINT"

def characters (s : Symbol) : List Char := s.spelling.toList

def singles : List Symbol :=
  [openParen,closeParen,openBracket,closeBracket,openBrace,closeBrace,
   colon,bang,plus,minus,star,slash,percent,less,greater,assign,comma,dot]

def compounds : List Symbol :=
  [slashSlash,starStar,equal,notEqual,atMost,atLeast,
   plusAssign,minusAssign,starAssign,slashAssign,slashSlashAssign,starStarAssign]

def words : List Symbol :=
  [orWord,andWord,jutsuWord,trueWord,falseWord,ifWord,elifWord,elseWord,releaseWord,printWord]

def all : List Symbol := singles ++ compounds ++ words

theorem memAll (s : Symbol) : s ∈ all := by cases s <;> decide

def opens : Symbol → Bool
  | openParen | openBracket | openBrace => true
  | _ => false

def closes : Symbol → Bool
  | closeParen | closeBracket | closeBrace => true
  | _ => false

/-- The number of open brackets behind a symbol. All three kinds count alike, and a closing
bracket with nothing open changes nothing. -/
def depthAfter (s : Symbol) (depth : Nat) : Nat :=
  if s.opens then depth + 1 else if s.closes then depth - 1 else depth

def augments : Symbol → Option Symbol
  | plusAssign => some plus
  | minusAssign => some minus
  | starAssign => some star
  | slashAssign => some slash
  | slashSlashAssign => some slashSlash
  | starStarAssign => some starStar
  | _ => none

def ofChar? (c : Char) : Option Symbol := singles.find? (fun s => s.characters == [c])

def ofWord? (word : List Char) : Option Symbol := words.find? (fun s => s.characters == word)

def prefer (text : List Char) (best : Option Symbol) (entry : Symbol) : Option Symbol :=
  if best.all (fun s => s.characters.length < entry.characters.length)
      && entry.characters.isPrefixOf text then some entry else best

def longestMatch (table : List Symbol) (text : List Char) : Option Symbol :=
  table.foldl (prefer text) none

theorem charactersNonempty (s : Symbol) : s.characters ≠ [] := by cases s <;> decide

theorem preferSound {text best entry s} (h : prefer text best entry = some s) :
    best = some s ∨ s = entry ∧ s.characters.isPrefixOf text := by
  unfold prefer at h
  split at h
  · rename_i better
    cases h
    exact .inr ⟨rfl,(Bool.and_eq_true_iff.mp better).2⟩
  · exact .inl h

theorem longestMatchSound {table text s} (h : longestMatch table text = some s) :
    s ∈ table ∧ s.characters.isPrefixOf text := by
  suffices all : ∀ best, table.foldl (prefer text) best = some s →
      best = some s ∨ s ∈ table ∧ s.characters.isPrefixOf text by
    simpa using all none h
  clear h
  induction table with
  | nil => exact fun best same => .inl same
  | cons entry table ih =>
    intro best same
    rcases ih _ same with now | later
    · rcases preferSound now with before | ⟨rfl,starts⟩
      · exact .inl before
      · exact .inr ⟨List.mem_cons_self,starts⟩
    · exact .inr ⟨List.mem_cons_of_mem _ later.1,later.2⟩

end Symbol
end JutsuSyntax.Token
