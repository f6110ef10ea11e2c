import JutsuSyntax.Expression.Reading
import JutsuSyntax.Statement.Parameters

/-! Reading statements and the bodies that hold them. As with expressions, the recursion knows
how many tokens it has passed, and `sentenceStep`, `bodyStep` and `bodyStatementsStep` state the
productions without that.

    statement  ::= definition | if | release | print | assignment | expression
    assignment ::= NAME ('=' | '+=' | '-=' | '*=' | '/=' | '//=' | '**=') expression
    definition ::= 'jutsu' NAME '(' (NAME (',' NAME)*)? ')' body
    if         ::= 'if' expression body
    release    ::= 'release' expression
    print      ::= 'print' expression
    body       ::= '{' NEWLINE* (statement NEWLINE*)* '}'

A keyword settles which statement it is. An assignment and an expression may share any number of
first tokens and are tried in turn from one place; the one that ends where a statement may end is
taken. -/
namespace JutsuSyntax

def Token.Kind.followsInBody : Token.Kind → Bool
  | .name | .integer | .string => true
  | .symbol s => s ∈ [.closeBrace,.trueWord,.falseWord,.openParen,.bang,.minus,.jutsuWord,.ifWord,
      .releaseWord,.printWord]
  | _ => false

namespace Cursor

def atBoundary (c : Cursor) : Bool :=
  match c.kind with
  | .newline | .finish => true
  | kind => 0 < c.bodies && kind.followsInBody

def completes (r : Parsed Tree) : Bool :=
  match r.result with
  | .ok _ => r.after.atBoundary
  | .error _ => false

/-- The first alternative that completes. If none does, the cursor stays at `start` and the
error names the furthest token that any of them reached. -/
def firstMatchFrom (context : Context) (start furthest : Cursor) : List Production → Parsed Tree
  | [] => ⟨.error (.noAlternative context furthest.current),start⟩
  | alternative :: others =>
    let r := alternative start
    if completes r then r else firstMatchFrom context start (further furthest r.after) others

def firstMatch (context : Context) (alternatives : List Production) (c : Cursor) : Parsed Tree :=
  firstMatchFrom context c c alternatives

theorem firstMatchConsumes {context : Context} {alternatives : List Production} {c : Cursor}
    (each : ∀ alternative ∈ alternatives, Consumes 1 c (alternative c)) :
    Consumes 1 c (firstMatch context alternatives c) := by
  unfold firstMatch
  suffices all : ∀ furthest, Consumes 1 c (firstMatchFrom context c furthest alternatives) from all c
  induction alternatives with
  | nil => exact fun _ => ⟨Nat.le_refl _,nofun⟩
  | cons alternative others ih =>
    intro furthest
    simp only [firstMatchFrom]
    split
    · exact each _ List.mem_cons_self
    · exact ih (fun a member => each a (List.mem_cons_of_mem _ member)) _

def assigned (name : String) (c : Cursor) : Parsed Tree :=
  match c.kind with
  | .symbol .assign => c.advance.expression
  | .symbol s =>
    match s.augments with
    | some operator =>
      (c.advance.level .disjunction).map (Tree.binary operator.spelling (Tree.identifier name))
    | none => ⟨.error (.unexpected (.symbol .assign) c.current),c⟩
  | _ => ⟨.error (.unexpected (.symbol .assign) c.current),c⟩

def assignment (c : Cursor) : Parsed Tree :=
  (c.expect .name).andThen (fun name d =>
    (assigned name.payload d).map (Tree.assignment (Tree.identifier name.payload)))

def led (keyword : Token.Symbol) (c : Cursor) : Parsed Tree :=
  (c.expect (.symbol keyword)).andThen (fun _ d => d.expression)

def enterBody (c : Cursor) : Cursor := {c with bodies := c.bodies + 1}

def leaveBody {α : Type} (r : Parsed α) : Parsed α :=
  ⟨r.result,{r.after with bodies := r.after.bodies - 1}⟩

def pastNewline (c : Cursor) : Cursor := if c.kind = .newline then c.advance else c

theorem pastNewlineNever (c : Cursor) : c.pastNewline.left ≤ c.left := by
  unfold pastNewline
  split
  · exact advanceNever c
  · exact Nat.le_refl _

theorem assignedConsumes (name : String) (c : Cursor) : Consumes 0 c (assigned name c) := by
  have passed := advanceNever c
  unfold assigned
  split
  · exact (expressionConsumes _).later (k := 0) passed (by omega)
  · split
    · exact ((levelConsumes _ _).map _).later (k := 0) passed (by omega)
    · exact ⟨Nat.le_refl _,nofun⟩
  · exact ⟨Nat.le_refl _,nofun⟩

theorem assignmentConsumes (c : Cursor) : Consumes 1 c c.assignment :=
  (expectName c).andThen (n := 0) (fun _ _ => (assignedConsumes _ _).map _)

theorem ledConsumes (keyword : Token.Symbol) (c : Cursor) : Consumes 1 c (led keyword c) :=
  (expectSymbol keyword c).andThen (n := 0) (fun _ _ => (expressionConsumes _).loose)

def unled (c : Cursor) : Parsed Tree := firstMatch .statement [assignment,expression] c

theorem unledConsumes (c : Cursor) : Consumes 1 c c.unled := by
  refine firstMatchConsumes (fun alternative member => ?_)
  simp only [List.mem_cons,List.not_mem_nil,or_false] at member
  rcases member with rfl | rfl
  · exact assignmentConsumes c
  · exact expressionConsumes c

namespace Consuming
variable {c : Cursor}

mutual

def sentence (c : Cursor) : Consuming 1 c Tree :=
  match c.kind with
  | .symbol .jutsuWord =>
    (of (headerConsumes c)).andThen (fun head d _ =>
      ((body d).map (Tree.definition head.name head.parameters)).loose)
  | .symbol .ifWord =>
    (of (ledConsumes .ifWord c)).andThen (fun condition d _ =>
      ((body d).map (Tree.conditional condition)).loose)
  | .symbol .releaseWord => (of (ledConsumes .releaseWord c)).map Tree.returned
  | .symbol .printWord =>
    (of (ledConsumes .printWord c)).map (fun value => Tree.call "print" [value])
  | _ => of (unledConsumes c)
termination_by c.left * 2

def body (c : Cursor) : Consuming 1 c (List Tree) :=
  (expect (.symbol .openBrace) nofun c).andThen (fun _ d behind =>
    have _inside : d.enterBody.left + 1 ≤ c.left := behind
    let statements := bodyStatements d.enterBody
    let outside : Consuming 0 d (List Tree) := ⟨leaveBody statements.val,statements.property⟩
    outside.andThen (fun statements d _ =>
      ((expect (.symbol .closeBrace) nofun d).map (fun _ => statements)).loose))
termination_by c.left * 2

def bodyStatements (c : Cursor) : Consuming 0 c (List Tree) :=
  match kind : c.kind with
  | .symbol .closeBrace | .finish => stay (.ok []) c
  | .newline =>
    have passed := advanceShortens (by simp [kind] : c.kind ≠ .finish)
    (bodyStatements c.advance).within (advanceNever c)
  | _ =>
    ((sentence c).andThen (fun statement d behind =>
      have never := pastNewlineNever d
      ((bodyStatements d.pastNewline).map (statement :: ·)).within never)).loose
termination_by c.left * 2 + 1

end

end Consuming

def sentence (c : Cursor) : Parsed Tree := (Consuming.sentence c).val

def body (c : Cursor) : Parsed (List Tree) := (Consuming.body c).val

def bodyStatements (c : Cursor) : Parsed (List Tree) := (Consuming.bodyStatements c).val

theorem sentenceConsumes (c : Cursor) : Consumes 1 c c.sentence := (Consuming.sentence c).property

theorem sentenceStep (c : Cursor) : c.sentence =
    match c.kind with
    | .symbol .jutsuWord => c.header.andThen (fun head d =>
        d.body.map (Tree.definition head.name head.parameters))
    | .symbol .ifWord => (led .ifWord c).andThen (fun condition d =>
        d.body.map (Tree.conditional condition))
    | .symbol .releaseWord => (led .releaseWord c).map Tree.returned
    | .symbol .printWord => (led .printWord c).map (fun value => Tree.call "print" [value])
    | _ => c.unled := by
  unfold sentence
  rw [Consuming.sentence.eq_def]
  split <;> rename_i kind
  · exact Consuming.andThenVal (fun _ _ _ => rfl)
  · exact Consuming.andThenVal (fun _ _ _ => rfl)
  · rfl
  · rfl
  · rfl

theorem bodyStep (c : Cursor) : c.body =
    (c.expect (.symbol .openBrace)).andThen (fun _ d =>
      (leaveBody d.enterBody.bodyStatements).andThen (fun statements d =>
        (d.expect (.symbol .closeBrace)).map (fun _ => statements))) := by
  unfold body
  rw [Consuming.body.eq_def]
  exact Consuming.andThenVal (fun _ _ _ => Consuming.andThenVal (fun _ _ _ => rfl))

theorem bodyStatementsStep (c : Cursor) : c.bodyStatements =
    match c.kind with
    | .symbol .closeBrace | .finish => ⟨.ok [],c⟩
    | .newline => c.advance.bodyStatements
    | _ => c.sentence.andThen (fun statement d =>
        d.pastNewline.bodyStatements.map (statement :: ·)) := by
  unfold bodyStatements
  rw [Consuming.bodyStatements.eq_def]
  split <;> rename_i kind
  · simp only [kind]; rfl
  · simp only [kind]; rfl
  · simp only [kind]; rfl
  · split
    · contradiction
    · contradiction
    · contradiction
    · exact Consuming.andThenVal (fun _ _ _ => rfl)

def atBlank (c : Cursor) : Bool :=
  match c.kind with
  | .newline | .finish | .symbol .closeBrace => true
  | _ => false

def statement (c : Cursor) : Parsed (Option Tree) :=
  if c.atBlank then ⟨.ok none,c⟩ else c.sentence.map some

theorem statementConsumes (c : Cursor) : Consumes 0 c c.statement := by
  unfold statement
  split
  · exact ⟨Nat.le_refl _,fun _ _ => Nat.le_refl _⟩
  · exact ((sentenceConsumes c).map _).loose

end Cursor
end JutsuSyntax
