import JutsuSyntax.Proofs.Program.Rounds
import JutsuSyntax.Proofs.Reader.Session

/-! Reading comes to an end. From every place among its tokens a reader that stops calls from going
too deep has an answer of every production, once it lets them go so deep as the tokens left ask for;
and what is read of an expression or a statement has tokens. -/
namespace JutsuSyntax
open Token (Symbol)

namespace Cursor

def call (c : Cursor) : Parsed Tree :=
  (c.expect .name).andThen (fun callee d =>
    (d.expect (.symbol .openParen)).andThen (fun _ d =>
      d.arguments.andThen (fun inner d =>
        (d.expect (.symbol .closeParen)).map (fun _ => Tree.call callee.payload inner))))

def atom (c : Cursor) : Parsed Tree :=
  if c.kind = .name then ⟨.ok (Tree.identifier c.payload),c.advance⟩ else c.primary

end Cursor

variable {α : Type} {depth : Nat} {r : Reader} {reply : Parsed α} {g : Nat → Guarded α}

namespace Agrees

theorem callAlone (deep : r.cursor.left * 16 + 13 < depth) : Agrees (Guarded.call depth) r r.cursor.call := by
  obtain ⟨depth,rfl⟩ := Nat.exists_eq_add_one.mpr (Nat.zero_lt_of_lt deep)
  rw [Guarded.call,Cursor.call]
  refine expectThen (by simp) (fun callee first shorter => ?_)
  refine expectThen (by simp) (fun _ second shorter' => ?_)
  refine (arguments depth second (by omega)).bind (fun inner _ _ _ => ?_)
  exact (expect (by simp)).map (fun _ => Tree.call callee.payload inner)

theorem atomAlone (deep : r.cursor.left * 16 + 13 < depth) : Agrees (Guarded.atom depth) r r.cursor.atom := by
  obtain ⟨depth,rfl⟩ := Nat.exists_eq_add_one.mpr (Nat.zero_lt_of_lt deep)
  rw [Cursor.atom]
  split <;> rename_i kind
  · rw [Guarded.atom]
    refine peeked ?_
    have name : r.cursor.current.kind = .name := kind
    rw [name]
    exact (advance (by simp [kind])).map (fun _ => Tree.identifier r.cursor.payload)
  · refine atom (by simp [atCall,kind]) (fun opens next same => expression depth next ?_)
    have shorter := Cursor.Consuming.symbolLeft opens
    rw [same]
    omega

end Agrees

def Returns (g : Nat → Guarded α) (r : Reader) (reply : Parsed α) : Prop :=
  ∀ depth, r.cursor.left * 16 + 14 < depth →
    ∃ next : Reader, g depth r = some (reply.result,next) ∧ next.cursor = reply.after

theorem Agrees.returns (inside : r.Inside)
    (agrees : ∀ depth, r.cursor.left * 16 + 14 < depth → Agrees (g depth) r reply) : Returns g r reply := by
  intro depth deep
  obtain ⟨next,run,cursor,_⟩ := agrees depth deep inside
  exact ⟨next,run,cursor⟩

structure Answers (r : Reader) : Prop where
  level (l : Level) : Returns (Guarded.level · l) r (r.cursor.level l)
  chain (operators : List Symbol) (operand : Level) (left : Tree) :
    Returns (Guarded.chain · operators operand left) r (r.cursor.chain operators operand left)
  expression : Returns Guarded.expression r r.cursor.expression
  call : Returns Guarded.call r r.cursor.call
  arguments : Returns Guarded.arguments r r.cursor.arguments
  argumentList : Returns Guarded.argumentList r r.cursor.argumentList
  atom : Returns Guarded.atom r r.cursor.atom
  assigned (name : String) : Returns (Guarded.assigned · name) r (r.cursor.assigned name)
  assignment : Returns Guarded.assignment r r.cursor.assignment
  led (keyword : Symbol) : Returns (Guarded.led · keyword) r (r.cursor.led keyword)
  unled : Returns (fun depth => Guarded.firstMatch .statement [Guarded.assignment depth,Guarded.expression depth])
    r r.cursor.unled
  parameters (function : String) : Returns (Guarded.parameters · function) r (r.cursor.parameters function)
  header : Returns Guarded.header r r.cursor.header
  sentence : Returns Guarded.sentence r r.cursor.sentence
  statement : Returns Guarded.statement r r.cursor.statement
  body : Returns Guarded.body r r.cursor.body
  bodyStatements : Returns Guarded.bodyStatements r r.cursor.bodyStatements
  statements : Returns Guarded.statements r r.cursor.statements

theorem answers (inside : r.Inside) : Answers r where
  level l := Agrees.returns inside (fun depth _ => Agrees.level depth l r (by have := l.rankBound; omega))
  chain operators operand left :=
    Agrees.returns inside (fun depth _ => Agrees.chain depth operators operand left r (by omega))
  expression := Agrees.returns inside (fun depth _ => Agrees.expression depth r (by omega))
  call := Agrees.returns inside (fun _ _ => Agrees.callAlone (by omega))
  arguments := Agrees.returns inside (fun depth _ => Agrees.arguments depth r (by omega))
  argumentList := Agrees.returns inside (fun depth _ => Agrees.argumentList depth r (by omega))
  atom := Agrees.returns inside (fun _ _ => Agrees.atomAlone (by omega))
  assigned name := Agrees.returns inside (fun _ _ => Agrees.assigned name (by omega))
  assignment := Agrees.returns inside (fun _ _ => Agrees.assignment (by omega))
  led keyword := Agrees.returns inside (fun _ _ => Agrees.led keyword (by omega))
  unled := Agrees.returns inside (fun _ _ => Agrees.unled (by omega))
  parameters function := Agrees.returns inside (fun _ _ => Agrees.parameters function (by omega))
  header := Agrees.returns inside (fun _ _ => Agrees.header (by omega))
  sentence := Agrees.returns inside (fun depth _ => Agrees.sentence depth r (by omega))
  statement := Agrees.returns inside (fun depth _ => Agrees.statement depth r (by omega))
  body := Agrees.returns inside (fun depth _ => Agrees.body depth r (by omega))
  bodyStatements := Agrees.returns inside (fun depth _ => Agrees.bodyStatements depth r (by omega))
  statements := Agrees.returns inside (fun _ _ => Agrees.statements (by omega))

open Cursor

structure Progresses (c : Cursor) : Prop where
  level {l t d} (read : c.level l = ⟨.ok t,d⟩) : Advances c d
  expression {t d} (read : c.expression = ⟨.ok t,d⟩) : Advances c d
  statement {t d} (read : c.statement = ⟨.ok (some t),d⟩) : Advances c d
  blank : c.statement.result = .ok none ↔
    c.kind = .newline ∨ c.kind = .finish ∨ c.kind = .symbol .closeBrace
  stays {d} (read : c.statement = ⟨.ok none,d⟩) : d = c
  lines : ∃ n, n ≤ c.left ∧ Rounds (fun d => d.kind = .finish) lineRound n c c.statements
  inner : ∃ n, n ≤ c.left ∧ Rounds (fun d => d.kind = .symbol .closeBrace ∨ d.kind = .finish) bodyRound n c
    c.bodyStatements

theorem progresses (c : Cursor) : Progresses c where
  level := levelAdvances
  expression := expressionAdvances
  statement := statementAdvances
  blank := by
    rw [← atBlankIff]
    constructor
    · intro read
      exact (statementNone (congrArg (Reply.mk · c.statement.after) read)).1
    · intro blank
      rw [Cursor.statement,if_pos blank]
  stays read := (statementNone read).2
  lines := statementsLoop.rounds c
  inner := bodyLoop.rounds c

theorem readingEnds : (∀ r : Reader, r.Inside → Answers r) ∧ (∀ c : Cursor, Progresses c) ∧
    ∀ tokens, (Reader.ofTokens tokens).Inside ∧
      ∃ next, Guarded.program (Reader.ofTokens tokens) = some (parse tokens,next) := by
  refine ⟨fun _ => answers,progresses,fun tokens => ?_⟩
  have inside := Reader.ofTokensInside tokens
  obtain ⟨next,run,_⟩ := Agrees.program (Reader.ofTokens tokens) inside
  exact ⟨inside,next,run⟩

def strayBrace : Reader :=
  ⟨[⟨.name,some "x",⟨1,1⟩⟩,⟨.symbol .closeBrace,none,⟨1,3⟩⟩,⟨.symbol .openParen,none,⟨1,5⟩⟩,
    Token.finish ⟨1,6⟩],1,3⟩

theorem strayBraceEnds : strayBrace.Inside ∧ Answers strayBrace ∧
    strayBrace.cursor.statement.result = .ok none ∧ strayBrace.cursor.statement.after = strayBrace.cursor := by
  have inside : strayBrace.Inside := ⟨by decide,by decide⟩
  obtain ⟨every,onward,_⟩ := readingEnds
  have blank := (onward strayBrace.cursor).blank.mpr (.inr (.inr rfl))
  have stays := (onward strayBrace.cursor).stays (congrArg (Reply.mk · strayBrace.cursor.statement.after) blank)
  exact ⟨inside,every strayBrace inside,blank,stays⟩

end JutsuSyntax
