import JutsuSyntax.Command.Execution

/-! The interactive prompt: every line is a program of its own, up to a line that ends the
conversation. It speaks to a console, so that one loop serves a terminal and a list of lines. -/
namespace JutsuSyntax

namespace Text

abbrev Bytes := List UInt8

def newline : UInt8 := 10

def carriageReturn : UInt8 := 13

def lines : Bytes → List Bytes
  | [] => []
  | b :: bs =>
    if b = newline then [b] :: lines bs
    else match lines bs with
      | [] => [[b]]
      | line :: others => (b :: line) :: others

def lineContent (line : Bytes) : Bytes :=
  match line.reverse with
  | last :: before =>
    if last = newline then
      match before with
      | b :: others => if b = carriageReturn then others.reverse else before.reverse
      | [] => []
    else line
  | [] => []

def decode (bytes : Bytes) : Option String := String.fromUTF8? ⟨bytes.toArray⟩

-- The characters with the Unicode property White_Space.
def blankRanges : List (Nat × Nat) :=
  [(0x9,0xd),(0x20,0x20),(0x85,0x85),(0xa0,0xa0),(0x1680,0x1680),(0x2000,0x200a),
   (0x2028,0x2029),(0x202f,0x202f),(0x205f,0x205f),(0x3000,0x3000)]

def isBlank (c : Char) : Bool :=
  blankRanges.any (fun range => range.1 ≤ c.toNat && c.toNat ≤ range.2)

def trimCharacters (text : List Char) : List Char :=
  ((text.dropWhile isBlank).reverse.dropWhile isBlank).reverse

def trim (text : String) : String := String.ofList (trimCharacters text.toList)

end Text

namespace Command
open Text (Bytes)

inductive ReadFailure where
  | missing
  | directory
  | notText
  | other (reason : String)
  deriving DecidableEq, Repr

def notText : String := "stream did not contain valid UTF-8"

def ReadFailure.reason : ReadFailure → String
  | missing => "No such file or directory (os error 2)"
  | directory => "Is a directory (os error 21)"
  | notText => Command.notText
  | other reason => reason

structure Console (m : Type → Type) where
  hear : m (Option Bytes)
  fetch : String → m (Except ReadFailure Bytes)
  say : String → List Entry → m Unit

structure Turn where
  out : String
  errors : List Entry
  leaves : Option Nat
  deriving DecidableEq, Repr

def versionNumber : String := "0.1.0"

def greeting : String := s!"Jutsu {versionNumber}\nType \"help\" for more information.\n"

def invitation : String := ">>> "

def notTextError : String := s!"Error: {notText}\n"

def answer (verbose : Bool) (help : String) : Option Bytes → Turn
  | none => ⟨"\n",[],some 0⟩
  | some line =>
    match Text.decode (Text.lineContent line) with
    | none => ⟨"",[.message notTextError],some 1⟩
    | some text =>
      if Text.trim text = "quit" then ⟨"",[],some 0⟩
      else if Text.trim text = "help" then ⟨help ++ "\n",[],none⟩
      else
        let e := execute verbose (text ++ "\n")
        ⟨e.out,e.errors verbose,none⟩

section Conversation
variable {m : Type → Type} [Monad m] (console : Console m) (verbose : Bool) (help : String)

def takeTurn (_ : Unit) : m (Unit ⊕ Nat) := do
  console.say invitation []
  let turn := answer verbose help (← console.hear)
  console.say turn.out turn.errors
  return match turn.leaves with
    | some code => .inr code
    | none => .inl ()

def converse : m Nat := repeatM (takeTurn console verbose help) ()

def prompt : m Nat := do
  console.say greeting []
  converse console verbose help

end Conversation

end Command
end JutsuSyntax
