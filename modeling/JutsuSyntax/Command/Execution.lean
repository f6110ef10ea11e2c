import JutsuSyntax.Program

/-! What the command writes for one source text: listings on its output, and on its error output
a complaint and the records of its log. A record is told whole; how it is laid out, and the time that
it carries, are up to the log. There are records of a lower severity than those here, one for each
token and for each abandoned alternative, which neither setting of the command shows. -/
namespace JutsuSyntax.Command

structure Settings where
  file : Option String
  verbose : Bool
  deriving DecidableEq, Repr

inductive Severity where
  | debug
  | info
  | warning
  deriving DecidableEq, Repr

def Severity.rank : Severity → Nat
  | debug => 0
  | info => 1
  | warning => 2

def Severity.title : Severity → String
  | debug => "DEBUG"
  | info => "INFO"
  | warning => "WARN"

inductive Record where
  | starting (settings : Settings)
  | parsing (file : String) (bytes : Nat)
  | tokenized (tokens lines : Nat)
  | parsed (statements : Nat)
  deriving DecidableEq, Repr

namespace Record

def severity : Record → Severity
  | parsing .. => .info
  | starting .. | tokenized .. | parsed .. => .debug

def threshold (verbose : Bool) : Severity := if verbose then .debug else .warning

def shown (verbose : Bool) (r : Record) : Bool := (threshold verbose).rank ≤ r.severity.rank

def body : Record → String
  | starting ⟨file,verbose⟩ =>
    let name := match file with
      | some name => s!"Some({name.quote})"
      | none => "None"
    s!"starting cli=Cli \x7b file: {name}, verbose: {verbose} \x7d"
  | parsing file bytes => s!"parsing file={file} bytes={bytes}"
  | tokenized tokens lines => s!"tokenized source tokens={tokens} lines={lines}"
  | parsed statements => s!"parsed program statements={statements}"

def text (r : Record) : String := s!"{r.severity.title} {r.body}\n"

end Record

inductive Entry where
  | record (r : Record)
  | message (text : String)
  deriving DecidableEq, Repr

namespace Entry

def text : Entry → String
  | record r => r.text
  | message text => text

def said : Entry → String
  | record _ => ""
  | message text => text

end Entry

def logged (verbose : Bool) (records : List Record) : List Entry :=
  (records.filter (Record.shown verbose)).map Entry.record

structure Outcome where
  code : Nat
  out : String
  errors : List Entry
  deriving DecidableEq, Repr

def messages (errors : List Entry) : String := String.join (errors.map Entry.said)

/-- What is written on the error output apart from the log, whose records carry the time. -/
def Outcome.err (o : Outcome) : String := messages o.errors

structure Execution where
  out : String
  log : List Record
  error : Option SyntaxError
  deriving DecidableEq, Repr

def tokenListing (tokens : List Token) : String :=
  "TOKENS\n[" ++ ", ".intercalate (tokens.map Token.display) ++ "]\n"

def treeListing (t : Tree) : String := s!"AST\n{t.outline}\n"

def execute (verbose : Bool) (text : String) : Execution :=
  let scanned := (Scanner.ofText text).scan
  match scanned.result with
  | .error e => ⟨"",[],some (.lexical e)⟩
  | .ok tokens =>
    let summary := Record.tokenized tokens.length scanned.after.location.line
    let listing := if verbose then tokenListing tokens else ""
    match parse tokens with
    | .error e => ⟨listing,[summary],some (.grammatical e)⟩
    | .ok t => ⟨listing ++ treeListing t,[summary,.parsed t.children.length],none⟩

namespace Execution

def complaint (e : Execution) : List Entry :=
  match e.error with
  | none => []
  | some error => [.message (error.message ++ "\n")]

def code (e : Execution) : Nat := if e.error.isSome then 1 else 0

def errors (verbose : Bool) (e : Execution) : List Entry := logged verbose e.log ++ e.complaint

end Execution
end JutsuSyntax.Command
