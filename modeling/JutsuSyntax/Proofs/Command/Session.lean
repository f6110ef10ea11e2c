import JutsuSyntax.Command.Run
import Mathlib.Data.List.ReduceOption

/-! A conversation at the prompt is made of its lines: what is written for each line is what is
written for a file that holds it, and the line that ends the conversation is the last one read. -/
namespace JutsuSyntax

namespace Text

def encode (text : String) : Bytes := text.toUTF8.data.toList

end Text

namespace Command
open Text (Bytes)

def onFile (verbose : Bool) (help name text : String) : Outcome :=
  run (.run ⟨some name,verbose⟩ help) (fun _ => .ok (Text.encode text)) (Text.encode text)

def respond (verbose : Bool) (help name line : String) : Outcome :=
  if Text.trim line = "help" then ⟨0,help ++ "\n",[]⟩ else onFile verbose help name (line ++ "\n")

section Runs
variable {verbose : Bool} {help name : String} {fetch read : String → Except ReadFailure Bytes}
  {line : Bytes} {ahead : List Bytes} {out : String} {errors : List Entry}

def rest (fetch : String → Except ReadFailure Bytes) (verbose : Bool) (help : String)
    (t : Transcript) : Outcome :=
  let (code,t) := (converse (Transcript.console fetch) verbose help).run t
  ⟨code,t.out,t.errors⟩

end Runs

end Command
end JutsuSyntax
