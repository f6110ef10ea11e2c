import JutsuSyntax.Command.Run

/-! The command itself, at a terminal. -/
namespace JutsuSyntax.Command
open Text (Bytes)

def load (name : String) : IO (Except ReadFailure Bytes) := do
  try
    return .ok (← IO.FS.readBinFile name).toList
  catch e =>
    match e with
    | .noFileOrDirectory .. => return .error .missing
    | .inappropriateType _ 21 _ => return .error .directory
    | .permissionDenied .. => return .error (.other "Permission denied (os error 13)")
    | other => return .error (.other (toString other))

partial def readAll (input : IO.FS.Stream) (read : ByteArray) : IO Bytes := do
  let chunk ← input.read 65536
  if chunk.isEmpty then return read.toList
  readAll input (read ++ chunk)

partial def readLine (input : IO.FS.Stream) (read : ByteArray) : IO Bytes := do
  let byte ← input.read 1
  let line := read ++ byte
  if byte.isEmpty ∨ byte[0]? = some Text.newline then return line.toList
  readLine input line

def terminal (input : IO.FS.Stream) : Console IO where
  hear := do
    let line ← readLine input .empty
    return if line.isEmpty then none else some line
  fetch := fun name => if name = "-" then .ok <$> readAll input .empty else load name
  say := fun out errors => do
    IO.print out
    (← IO.getStdout).flush
    errors.forM (fun entry => IO.eprint entry.text)

end JutsuSyntax.Command

open JutsuSyntax.Command in
def main (arguments : List String) : IO UInt32 := do
  let code ← perform (terminal (← IO.getStdin)) (Request.ofArguments arguments)
  return code.toUInt32
