import JutsuSyntax.Proofs.Program.Acceptance
import JutsuSyntax.Proofs.Program.Repetition
import JutsuSyntax.Proofs.Statement.Onward

/-! Calling the parser again. A call starts where the last one stopped, whether that one succeeded
or failed, and knows nothing else of it. -/
namespace JutsuSyntax

namespace Reply
variable {ε σ α : Type} {read : σ → Reply ε σ α} {state : σ}

def reach (read : σ → Reply ε σ α) : Nat → σ → σ
  | 0, state => state
  | calls + 1, state => reach read calls (read state).after

theorem reachStep (read : σ → Reply ε σ α) (calls : Nat) (state : σ) :
    reach read (calls + 1) state = (read (reach read calls state)).after := by
  induction calls generalizing state with
  | zero => rfl
  | succ calls ih => exact ih (read state).after

theorem reachAdd (read : σ → Reply ε σ α) (first more : Nat) (state : σ) :
    reach read (first + more) state = reach read more (reach read first state) := by
  induction first generalizing state with
  | zero => rw [Nat.zero_add]; rfl
  | succ first ih => rw [Nat.add_right_comm]; exact ih (read state).after

theorem reachFixed (fixed : (read state).after = state) (calls : Nat) : reach read calls state = state := by
  induction calls with
  | zero => rfl
  | succ calls ih => rw [reachStep,ih,fixed]

theorem sessionReach (read : σ → Reply ε σ α) (calls : Nat) (state : σ) :
    session read calls state = (List.range calls).map (fun k => (read (reach read k state)).result) := by
  induction calls generalizing state with
  | zero => rfl
  | succ calls ih =>
    rw [session,ih,List.range_succ_eq_map,List.map_cons,List.map_map]
    rfl

end Reply

namespace Cursor
variable {tokens rest : List Token} {c : Cursor} {found : Token} {t : Tree}

structure Standing (tokens : List Token) (c : Cursor) : Prop where
  outside : c.bodies = 0
  ends : Ends c.ahead
  behind : ∃ passed, complete tokens = passed ++ c.ahead

theorem standingStart (tokens : List Token) : Standing tokens (ofTokens tokens) :=
  ⟨rfl,completeEnds tokens,[],rfl⟩

theorem Standing.onward {d : Cursor} (h : Standing tokens c) (onward : Onward c d) : Standing tokens d := by
  obtain ⟨passed,same⟩ := h.behind
  obtain ⟨more,same',_⟩ := onward.passes
  exact ⟨onward.bodies.trans h.outside,onward.ends h.ends,passed ++ more,by rw [same,same',List.append_assoc]⟩

theorem programOnward (c : Cursor) : Onward c c.program.after := onwardStatements.statements c

theorem standingReach (tokens : List Token) (calls : Nat) :
    Standing tokens (Reply.reach program calls (ofTokens tokens)) := by
  induction calls with
  | zero => exact standingStart tokens
  | succ calls ih =>
    rw [Reply.reachStep]
    exact ih.onward (programOnward _)

theorem completeLast (tokens : List Token) : ∃ front last, complete tokens = front ++ [last] ∧
    last.kind = .finish := by
  unfold complete
  split
  · exact ⟨[],_,rfl,rfl⟩
  · rename_i last same
    split
    · obtain ⟨front,whole⟩ := List.getLast?_eq_some_iff.mp same
      exact ⟨front,last,whole,‹_›⟩
    · exact ⟨tokens,_,rfl,rfl⟩

theorem completeFilled {passed : List Token} (same : complete tokens = passed ++ rest) (filled : rest ≠ []) :
    complete rest = rest := by
  obtain ⟨front,last,whole,ended⟩ := completeLast tokens
  obtain ⟨others,final,rfl⟩ : ∃ others final, rest = others ++ [final] :=
    ⟨_,_,(List.dropLast_concat_getLast filled).symm⟩
  rw [whole,← List.append_assoc] at same
  obtain ⟨_,last⟩ := List.append_inj' same rfl
  cases last
  exact completeEnded ended

theorem Standing.fresh (h : Standing tokens c) : parse c.ahead = c.program.result := by
  obtain ⟨token,others,filled⟩ := endsFilled h.ends
  obtain ⟨passed,same⟩ := h.behind
  have again : ofTokens c.ahead = c := by
    rw [ofTokens,completeFilled same (by simp [filled]),← h.outside]
  rw [parse,again]

theorem Standing.counting (h : Standing tokens c) : c.counting 0 = c := by
  rw [Cursor.counting,← h.outside]

theorem statementsEnded {ts : List Tree} (ends : Ends rest) (read : (statements ⟨rest,0⟩).result = .ok ts) :
    (statements ⟨rest,0⟩).after.kind = .finish := by
  cases linesOutcome rest ends with
  | passes same unended settled fits =>
    rw [settled.here (n := 0) (by simpa using same) rfl]
    exact fits.2
  | fails same unended settled fits =>
    rw [settled.here (n := 0) same rfl] at read
    contradiction

theorem Standing.accepted (h : Standing tokens c) (read : c.program.result = .ok t) :
    c.program.after.program = ⟨.ok (Tree.program []),c.program.after⟩ := by
  have ended : c.statements.after.kind = .finish := by
    cases result : c.statements.result with
    | error e => simp [program,Reply.map,Except.map,result] at read
    | ok ts =>
      rw [← h.counting] at result ⊢
      exact statementsEnded h.ends result
  exact congrArg (Reply.map Tree.program) (statementsFinish ended)

theorem Standing.refused (h : Standing tokens c)
    (failed : c.program.result = .error (.noAlternative .statement found)) :
    c.program.after.program = ⟨.error (.noAlternative .statement found),c.program.after⟩ := by
  have stuck : Stuck found c.statements.after := by
    refine statementsStuck c ?_
    cases result : c.statements.result with
    | error e => simpa [program,Reply.map,Except.map,result] using failed
    | ok ts => simp [program,Reply.map,Except.map,result] at failed
  have again : c.statements.after.counting 0 = c.statements.after :=
    (h.onward (onwardStatements.statements c)).counting
  rw [Stuck,again] at stuck
  exact congrArg (Reply.map Tree.program) stuck

theorem Standing.stayed (h : Standing tokens c) (stays : c.program.after.ahead = c.ahead) :
    c.program.after = c := by
  have outside := (h.onward (programOnward c)).outside
  rw [← h.outside] at outside
  cases after : c.program.after
  simp_all

end Cursor
open Cursor

def place (tokens : List Token) (calls : Nat) : Cursor := Reply.reach program calls (ofTokens tokens)

theorem laterCalls {tokens : List Token} {k j : Nat} {result : Except ParseError Tree}
    (fixed : (place tokens (k + 1)).program = ⟨result,place tokens (k + 1)⟩) (later : k < j) :
    parse (place tokens j).ahead = result := by
  obtain ⟨more,rfl⟩ := Nat.exists_eq_add_of_lt later
  have stays : (place tokens (k + 1)).program.after = place tokens (k + 1) := congrArg Reply.after fixed
  have reached : place tokens (k + more + 1) = place tokens (k + 1) := by
    rw [Nat.add_right_comm]
    exact (Reply.reachAdd program (k + 1) more _).trans (Reply.reachFixed stays more)
  rw [reached]
  exact (standingReach tokens (k + 1)).fresh.trans (congrArg Reply.result fixed)

theorem callsForget (tokens : List Token) :
    (∀ calls, Reply.session program calls (ofTokens tokens) =
      (List.range calls).map (fun k => parse (place tokens k).ahead)) ∧
    (∀ k, (place tokens k).bodies = 0 ∧
      ∃ passed, (place tokens k).ahead = passed ++ (place tokens (k + 1)).ahead) ∧
    ∀ k j, k < j →
      (∀ t, parse (place tokens k).ahead = .ok t →
        parse (place tokens j).ahead = .ok (Tree.program [])) ∧
      (∀ found, parse (place tokens k).ahead = .error (.noAlternative .statement found) →
        parse (place tokens j).ahead = .error (.noAlternative .statement found)) ∧
      ((place tokens (k + 1)).ahead = (place tokens k).ahead →
        parse (place tokens j).ahead = parse (place tokens k).ahead) := by
  have fresh (k : Nat) : parse (place tokens k).ahead = (place tokens k).program.result :=
    (standingReach tokens k).fresh
  have step (k : Nat) : place tokens (k + 1) = (place tokens k).program.after :=
    Reply.reachStep program k (ofTokens tokens)
  refine ⟨fun calls => ?_,fun k => ⟨(standingReach tokens k).outside,?_⟩,fun k j later => ⟨?_,?_,?_⟩⟩
  · rw [Reply.sessionReach]
    exact List.map_congr_left (fun k _ => (fresh k).symm)
  · obtain ⟨passed,same,_⟩ := (programOnward (place tokens k)).passes
    exact ⟨passed,by rw [step,same]⟩
  · intro t accepted
    rw [fresh] at accepted
    refine laterCalls ?_ later
    rw [step]
    exact (standingReach tokens k).accepted accepted
  · intro found failed
    rw [fresh] at failed
    refine laterCalls ?_ later
    rw [step]
    exact (standingReach tokens k).refused failed
  · intro stays
    rw [step] at stays
    have still : place tokens (k + 1) = place tokens k :=
      (step k).trans ((standingReach tokens k).stayed stays)
    refine laterCalls ?_ later
    rw [still,fresh]
    exact congrArg (Reply.mk _) ((step k).symm.trans still)

def openBodies : List Token :=
  [⟨.symbol .ifWord,none,⟨1,1⟩⟩,⟨.name,some "x",⟨1,4⟩⟩,⟨.symbol .openBrace,none,⟨1,6⟩⟩,
   ⟨.name,some "y",⟨1,8⟩⟩,⟨.symbol .assign,none,⟨1,10⟩⟩,⟨.symbol .closeParen,none,⟨1,12⟩⟩,
   ⟨.symbol .closeBrace,none,⟨1,14⟩⟩]

def strayParen : Token := ⟨.symbol .closeParen,none,⟨1,12⟩⟩

theorem bodyFailsAgain :
    parse (place openBodies 0).ahead = .error (.noAlternative .statement strayParen) ∧
      parse (place openBodies 5).ahead = .error (.noAlternative .statement strayParen) ∧
    parse (place [] 0).ahead = .ok (Tree.program []) ∧
      parse (place [] 2).ahead = .ok (Tree.program []) ∧
    (place [strayParen] 1).ahead = (place [strayParen] 0).ahead ∧
      parse (place [strayParen] 3).ahead = parse (place [strayParen] 0).ahead := by
  have failed : parse (place openBodies 0).ahead = .error (.noAlternative .statement strayParen) := by
    decide +kernel
  have accepted : parse (place [] 0).ahead = .ok (Tree.program []) := by decide +kernel
  have stays : (place [strayParen] 1).ahead = (place [strayParen] 0).ahead := by decide +kernel
  exact ⟨failed,((callsForget openBodies).2.2 0 5 (by decide)).2.1 _ failed,
    accepted,((callsForget []).2.2 0 2 (by decide)).1 _ accepted,
    stays,((callsForget [strayParen]).2.2 0 3 (by decide)).2.2 stays⟩

end JutsuSyntax
