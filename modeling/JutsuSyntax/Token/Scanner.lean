import JutsuSyntax.Reply
import JutsuSyntax.Token.Basic

/-! Reading tokens from a text. A text is split into pieces from the front; a piece is layout,
a newline or a token, and a newline counts only outside brackets. The scanner keeps its place
and its bracket depth from call to call. -/
namespace JutsuSyntax

inductive LexError where
  | unreadable (c : Char) (location : Location)
  | unterminated (location : Location)
  deriving DecidableEq, Repr

namespace LexError

def location : LexError → Location
  | unreadable _ place | unterminated place => place

def message : LexError → String
  | unreadable c place => s!"Unreadable or invalid character '{c}' at {place.display}"
  | unterminated place => s!"Unterminated string literal starting at {place.display}"

end LexError

namespace Token

inductive Role where
  | layout
  | newline
  | token (kind : Kind) (lexeme : Option String)
  deriving DecidableEq, Repr

inductive Fault where
  | unreadable
  | unterminated
  deriving DecidableEq, Repr

structure Piece where
  role : Role
  word : List Char
  rest : List Char
  deriving DecidableEq, Repr

/-- Splits the text behind an opening quote at the closing one. A backslash keeps the
character behind it from closing the string; both stay in the contents. -/
def splitString : List Char → Option (List Char × List Char)
  | [] => none
  | '"' :: rest => some ([],rest)
  | '\\' :: [] => none
  | '\\' :: c :: rest => (splitString rest).map (fun s => ('\\' :: c :: s.1,s.2))
  | c :: rest => (splitString rest).map (fun s => (c :: s.1,s.2))

theorem splitStringAppend {text inside rest} (h : splitString text = some (inside,rest)) :
    inside ++ '"' :: rest = text := by
  fun_induction splitString text generalizing inside rest with
  | case1 => simp at h
  | case2 => simp_all
  | case3 => simp at h
  | case4 c cs ih =>
    obtain ⟨⟨i,r⟩,found,same⟩ := Option.map_eq_some_iff.mp h
    cases same
    simp [ih found]
  | case5 c cs _ _ _ ih =>
    obtain ⟨⟨i,r⟩,found,same⟩ := Option.map_eq_some_iff.mp h
    cases same
    simp [ih found]

namespace Piece

def ofComment (text : List Char) : Piece :=
  let tail := text.dropWhile (· ≠ '\n')
  ⟨.layout,text.takeWhile (· ≠ '\n') ++ tail.take 1,tail.drop 1⟩

def ofDigits (text : List Char) : Piece :=
  let digits := text.takeWhile Char.isDigit
  ⟨.token .integer (some (String.ofList digits)),digits,text.dropWhile Char.isDigit⟩

def ofLetters (text : List Char) : Piece :=
  let letters := text.takeWhile Char.isAlpha
  let role := match Symbol.ofWord? letters with
    | some s => Role.token (.symbol s) none
    | none => Role.token .name (some (String.ofList letters))
  ⟨role,letters,text.dropWhile Char.isAlpha⟩

def first (c : Char) (cs : List Char) : Except Fault Piece :=
  if c = ' ' ∨ c = '\t' ∨ c = '\r' then .ok ⟨.layout,[c],cs⟩
  else if c = '\n' then .ok ⟨.newline,[c],cs⟩
  else if c = '#' then .ok (ofComment (c :: cs))
  else match Symbol.longestMatch Symbol.compounds (c :: cs) with
    | some s => .ok ⟨.token (.symbol s) none,s.characters,(c :: cs).drop s.characters.length⟩
    | none => match Symbol.ofChar? c with
      | some s => .ok ⟨.token (.symbol s) none,[c],cs⟩
      | none =>
        if c.isDigit then .ok (ofDigits (c :: cs))
        else if c = '"' then match splitString cs with
          | some (inside,rest) =>
            .ok ⟨.token .string (some (String.ofList inside)),c :: (inside ++ ['"']),rest⟩
          | none => .error .unterminated
        else if c.isAlpha then .ok (ofLetters (c :: cs))
        else .error .unreadable

theorem firstAppend {c cs piece} (h : first c cs = .ok piece) :
    piece.word ++ piece.rest = c :: cs ∧ piece.word ≠ [] := by
  unfold first at h
  split at h
  · cases h; simp
  split at h
  · cases h; simp
  split at h
  · cases h
    rename_i sharp
    simp only [ofComment,List.append_assoc,List.take_append_drop,List.takeWhile_append_dropWhile]
    simp [sharp]
  split at h
  · rename_i s found
    cases h
    obtain ⟨inside,starts⟩ := Symbol.longestMatchSound found
    obtain ⟨rest,same⟩ := List.isPrefixOf_iff_prefix.mp starts
    rw [← same]
    exact ⟨by simp,Symbol.charactersNonempty s⟩
  split at h
  · cases h; simp
  split at h
  · cases h
    rename_i digit
    simp [ofDigits,digit]
  split at h
  · split at h
    · cases h
      rename_i split
      simp [splitStringAppend split]
    · contradiction
  split at h
  · cases h
    rename_i letter
    simp [ofLetters,letter]
  · contradiction

theorem firstShortens {c cs piece} (h : first c cs = .ok piece) :
    piece.rest.length < (c :: cs).length := by
  obtain ⟨same,filled⟩ := firstAppend h
  have := List.length_pos_iff.mpr filled
  rw [← same,List.length_append]
  omega

end Piece
end Token

structure Scanner where
  rest : List Char
  location : Location
  depth : Nat
  deriving DecidableEq, Repr

namespace Scanner
open Token (Piece)

def ofText (text : String) : Scanner := ⟨text.toList,.start,0⟩

def yield (s : Scanner) (piece : Piece) : List Token :=
  match piece.role with
  | .layout => []
  | .newline => if s.depth = 0 then [⟨.newline,none,s.location⟩] else []
  | .token kind lexeme => [⟨kind,lexeme,s.location⟩]

def depthPast (s : Scanner) (piece : Piece) : Nat :=
  match piece.role with
  | .token (.symbol symbol) _ => symbol.depthAfter s.depth
  | _ => s.depth

def past (s : Scanner) (piece : Piece) : Scanner :=
  ⟨piece.rest,s.location.afterText piece.word,s.depthPast piece⟩

def fail (s : Scanner) (c : Char) : Token.Fault → Reply LexError Scanner (List Token)
  | .unreadable => ⟨.error (.unreadable c s.location),s⟩
  | .unterminated => ⟨.error (.unterminated s.location),⟨[],s.location.afterText s.rest,s.depth⟩⟩

def scanOnto (read : List Token) (s : Scanner) : Reply LexError Scanner (List Token) :=
  match ahead : s.rest with
  | [] => ⟨.ok (Token.finish s.location :: read).reverse,s⟩
  | c :: cs =>
    match found : Piece.first c cs with
    | .error fault => s.fail c fault
    | .ok piece =>
      have shorter : (s.past piece).rest.length < s.rest.length := by
        rw [ahead]
        exact Piece.firstShortens found
      scanOnto ((s.yield piece).reverse ++ read) (s.past piece)
termination_by s.rest.length

def scan (s : Scanner) : Reply LexError Scanner (List Token) := s.scanOnto []

theorem scanOntoNil {s : Scanner} (ended : s.rest = []) (read : List Token) :
    s.scanOnto read = ⟨.ok (Token.finish s.location :: read).reverse,s⟩ := by
  rw [scanOnto]
  split <;> simp_all

theorem scanOntoError {s : Scanner} {c cs fault} (ahead : s.rest = c :: cs)
    (found : Piece.first c cs = .error fault) (read : List Token) :
    s.scanOnto read = s.fail c fault := by
  rw [scanOnto]
  split
  · simp_all
  · rename_i same
    obtain ⟨rfl,rfl⟩ := List.cons.inj (ahead.symm.trans same)
    split <;> simp_all

theorem scanOntoOk {s : Scanner} {c cs piece} (ahead : s.rest = c :: cs)
    (found : Piece.first c cs = .ok piece) (read : List Token) :
    s.scanOnto read = (s.past piece).scanOnto ((s.yield piece).reverse ++ read) := by
  rw [scanOnto]
  split
  · simp_all
  · rename_i same
    obtain ⟨rfl,rfl⟩ := List.cons.inj (ahead.symm.trans same)
    split <;> simp_all

theorem scanOntoAppend (read earlier : List Token) (s : Scanner) :
    s.scanOnto (read ++ earlier) = (s.scanOnto read).map (earlier.reverse ++ ·) := by
  fun_induction scanOnto read s with
  | case1 read s ended => simp [scanOntoNil ended,Reply.map,Except.map]
  | case2 read s c cs ahead fault found =>
    rw [scanOntoError ahead found]
    cases fault <;> rfl
  | case3 read s c cs ahead piece found _ ih =>
    rw [scanOntoOk ahead found,← ih,List.append_assoc]

theorem scanNil {s : Scanner} (ended : s.rest = []) :
    s.scan = ⟨.ok [Token.finish s.location],s⟩ := scanOntoNil ended []

theorem scanError {s : Scanner} {c cs fault} (ahead : s.rest = c :: cs)
    (found : Piece.first c cs = .error fault) : s.scan = s.fail c fault :=
  scanOntoError ahead found []

theorem scanOk {s : Scanner} {c cs piece} (ahead : s.rest = c :: cs)
    (found : Piece.first c cs = .ok piece) :
    s.scan = (s.past piece).scan.map (s.yield piece ++ ·) := by
  rw [scan,scanOntoOk ahead found,List.append_nil]
  simpa [scan] using scanOntoAppend [] (s.yield piece).reverse (s.past piece)

@[elab_as_elim]
theorem scanInduct {motive : Scanner → Prop} (ended : ∀ s : Scanner, s.rest = [] → motive s)
    (fails : ∀ (s : Scanner) c cs fault, s.rest = c :: cs → Piece.first c cs = .error fault → motive s)
    (passes : ∀ (s : Scanner) c cs piece, s.rest = c :: cs → Piece.first c cs = .ok piece →
      motive (s.past piece) → motive s) (s : Scanner) : motive s := by
  cases ahead : s.rest with
  | nil => exact ended s ahead
  | cons c cs =>
    cases found : Piece.first c cs with
    | error fault => exact fails s c cs fault ahead found
    | ok piece =>
      have shorter : (s.past piece).rest.length < s.rest.length := by
        rw [ahead]
        exact Piece.firstShortens found
      exact passes s c cs piece ahead found (scanInduct ended fails passes (s.past piece))
termination_by s.rest.length

end Scanner

def tokenize (text : String) : Except LexError (List Token) := (Scanner.ofText text).scan.result

end JutsuSyntax
