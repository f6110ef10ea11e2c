import JutsuSyntax.Command.Prompt

/-! The command as a whole. What its arguments ask for is found out by a library for command lines,
which also words the help text; a request is what that library hands over. The reader of arguments
here stands in for it when the command is run. -/
namespace JutsuSyntax.Command
open Text (Bytes)

inductive Request where
  | leave (outcome : Outcome)
  | run (settings : Settings) (help : String)
  deriving DecidableEq, Repr

def cannotRead (name : String) (failure : ReadFailure) : Outcome :=
  ⟨1,"",[.message s!"Error: cannot read '{name}': {failure.reason}\n"]⟩

def runFile (verbose : Bool) (name : String) (contents : Except ReadFailure Bytes) : Outcome :=
  match contents with
  | .error failure => cannotRead name failure
  | .ok bytes =>
    match Text.decode bytes with
    | none => cannotRead name .notText
    | some text =>
      let e := execute verbose text
      ⟨e.code,e.out,logged verbose [.parsing name bytes.length] ++ e.errors verbose⟩

def perform {m : Type → Type} [Monad m] (console : Console m) : Request → m Nat
  | .leave outcome => do
    console.say outcome.out outcome.errors
    return outcome.code
  | .run settings help => do
    console.say "" (logged settings.verbose [.starting settings])
    match settings.file with
    | none => prompt console settings.verbose help
    | some name =>
      let outcome := runFile settings.verbose name (← console.fetch name)
      console.say outcome.out outcome.errors
      return outcome.code

structure Transcript where
  ahead : List Bytes
  out : String
  errors : List Entry
  deriving Inhabited

namespace Transcript

def said (t : Transcript) (out : String) (errors : List Entry) : Transcript :=
  ⟨t.ahead,t.out ++ out,t.errors ++ errors⟩

def heard (t : Transcript) : Transcript := {t with ahead := t.ahead.tail}

def console (fetch : String → Except ReadFailure Bytes) : Console (StateM Transcript) where
  hear := modifyGet (fun t => (t.ahead.head?,t.heard))
  fetch := fun name => return fetch name
  say := fun out errors => modify (fun t => t.said out errors)

end Transcript

def run (request : Request) (read : String → Except ReadFailure Bytes) (input : Bytes) : Outcome :=
  let fetch := fun name => if name = "-" then .ok input else read name
  let (code,t) := (perform (Transcript.console fetch) request).run ⟨Text.lines input,"",[]⟩
  ⟨code,t.out,t.errors⟩

namespace Request

def helpText : String := String.join
  ["Tokenize and parse Jutsu programs\n\n",
   "Usage: jutsu [OPTIONS] [FILE]\n\n",
   "Arguments:\n",
   "  [FILE]  Program read from script file; `-` reads stdin. Without a file an interactive prompt is started\n\n",
   "Options:\n",
   "  -v, --verbose  Also print the token stream and enable debug logging\n",
   "  -h, --help     Print help\n",
   "  -V, --version  Print version\n\n",
   "At the interactive prompt, `help` prints this message and `quit` exits.\n"]

def help : Request := leave ⟨0,helpText,[]⟩

def version : Request := leave ⟨0,s!"jutsu {versionNumber}\n",[]⟩

def misuse (argument : String) : Request :=
  leave ⟨2,"",[.message s!"error: unexpected argument '{argument}' found\n"]⟩

def ofFiles (s : Settings) : List String → Request
  | [] => run s helpText
  | name :: names =>
    match s.file with
    | none => ofFiles {s with file := some name} names
    | some _ => misuse name

def shorts (s : Settings) : List Char → Except Request Settings
  | [] => .ok s
  | 'h' :: _ => .error help
  | 'V' :: _ => .error version
  | c :: cs =>
    if c = 'v' ∧ s.verbose = false then shorts {s with verbose := true} cs
    else .error (misuse (String.ofList ['-',c]))

-- The first request for help or the version wins; behind `--` everything is a file name.
def ofArgumentsFrom (s : Settings) : List String → Request
  | [] => run s helpText
  | "--" :: names => ofFiles s names
  | "--help" :: _ => help
  | "--version" :: _ => version
  | argument :: others =>
    if argument = "--verbose" ∧ s.verbose = false then ofArgumentsFrom {s with verbose := true} others
    else match argument.toList with
      | '-' :: '-' :: _ => misuse argument
      | '-' :: c :: cs =>
        match shorts s (c :: cs) with
        | .ok s => ofArgumentsFrom s others
        | .error request => request
      | _ =>
        match s.file with
        | none => ofArgumentsFrom {s with file := some argument} others
        | some _ => misuse argument

def ofArguments (arguments : List String) : Request := ofArgumentsFrom ⟨none,false⟩ arguments

end Request
end JutsuSyntax.Command
