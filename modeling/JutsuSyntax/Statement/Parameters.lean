import JutsuSyntax.Cursor.Progress

/-! The head of a definition, with its parameter list. Names and commas are taken as they come
and judged at their end: they must take turns, and one more name than commas must be there. -/
namespace JutsuSyntax

structure Tally where
  names : List String
  commas : Nat
  alternating : Bool
  deriving DecidableEq, Repr

namespace Tally

def empty : Tally := ⟨[],0,true⟩

def add (t : Tally) (token : Token) : Tally :=
  if token.kind = .name then
    ⟨t.names ++ [token.payload],t.commas,t.alternating && t.names.length == t.commas⟩
  else ⟨t.names,t.commas + 1,t.alternating && t.commas + 1 == t.names.length⟩

def ofRun (run : List Token) : Tally := run.foldl add empty

def balanced (t : Tally) : Bool :=
  if t.names.isEmpty then t.commas == 0 else t.commas + 1 == t.names.length

end Tally

structure Header where
  name : String
  parameters : List String
  deriving DecidableEq, Repr

namespace Cursor

def isParameterToken (token : Token) : Bool :=
  token.kind == .name || token.kind == .symbol .comma

def parameterRun (c : Cursor) : List Token := c.ahead.takeWhile isParameterToken

def pastParameters (c : Cursor) : Cursor := {c with ahead := c.ahead.dropWhile isParameterToken}

def parameters (function : String) (c : Cursor) : Parsed (List String) :=
  let tally := Tally.ofRun c.parameterRun
  if tally.alternating && tally.balanced then ⟨.ok tally.names,c.pastParameters⟩
  else ⟨.error (.badParameters function tally.names.length tally.commas c.current.location),
    c.pastParameters⟩

def header (c : Cursor) : Parsed Header :=
  (c.expect (.symbol .jutsuWord)).andThen (fun _ d =>
    (d.expect .name).andThen (fun name d =>
      (d.expect (.symbol .openParen)).andThen (fun _ d =>
        (parameters name.payload d).andThen (fun names d =>
          (d.expect (.symbol .closeParen)).map (fun _ => ⟨name.payload,names⟩)))))

theorem parametersConsumes (function : String) (c : Cursor) : Consumes 0 c (parameters function c) := by
  have never : c.pastParameters.left ≤ c.left := (List.dropWhile_sublist _).length_le
  unfold parameters
  dsimp only
  split
  · exact ⟨never,fun _ _ => never⟩
  · exact ⟨never,nofun⟩

theorem headerConsumes (c : Cursor) : Consumes 1 c c.header := by
  refine (expectSymbol .jutsuWord c).andThen (n := 0) (fun _ _ => ?_)
  refine (expectName _).loose.andThen (n := 0) (fun _ _ => ?_)
  refine (expectSymbol .openParen _).loose.andThen (n := 0) (fun _ _ => ?_)
  refine (parametersConsumes _ _).andThen (n := 0) (fun _ _ => ?_)
  exact ((expectSymbol .closeParen _).map _).loose

end Cursor
end JutsuSyntax
