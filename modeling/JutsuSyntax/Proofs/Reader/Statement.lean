import JutsuSyntax.Program
import JutsuSyntax.Proofs.Reader.Expression
import JutsuSyntax.Proofs.Statement.Commuting
import JutsuSyntax.Proofs.Program.Rounds
import Mathlib.Data.List.Forall2

/-! Reading statements, bodies and programs by index. An alternative that was tried in vain leaves
the index it reached; the reader goes back to where it started, and the furthest of these indices
is looked up if nothing completes. -/
namespace JutsuSyntax
open Token (Symbol)

namespace Guarded

def augmentation : Token.Kind → Option Symbol
  | .symbol s => s.augments
  | _ => none

def assigned (depth : Nat) (name : String) : Guarded Tree := do
  let token ← peek
  let augmented := augmentation token.kind
  if token.kind ≠ .symbol .assign ∧ augmented = none then throw (.unexpected (.symbol .assign) token)
  else
    let _ ← advance
    match augmented with
    | none => expression depth
    | some operator =>
      return Tree.binary operator.spelling (Tree.identifier name) (← level depth .disjunction)

def assignment (depth : Nat) : Guarded Tree := do
  let name ← expect .name
  return Tree.assignment (Tree.identifier name.payload) (← assigned depth name.payload)

def led (depth : Nat) (keyword : Symbol) : Guarded Tree := do
  let _ ← expect (.symbol keyword)
  expression depth

def boundary : Guarded Bool := do
  let kind := (← peek).kind
  let inside := 0 < (← get).bodies
  match kind with
  | .newline | .finish => return true
  | kind => return inside && kind.followsInBody

def completed : Except ParseError Tree → Guarded (Option Tree)
  | .ok t => do return if ← boundary then some t else none
  | .error _ => return none

def firstMatchFrom (context : Context) (start furthest : Nat) : List (Guarded Tree) → Guarded Tree
  | [] => do throw (.noAlternative context (← token furthest))
  | alternative :: others => do
    match ← completed (← attempt alternative) with
    | some t => return t
    | none =>
      let furthest := max furthest (← get).position
      moveTo start
      firstMatchFrom context start furthest others

def firstMatch (context : Context) (alternatives : List (Guarded Tree)) : Guarded Tree := do
  let start := (← get).position
  firstMatchFrom context start start alternatives

def parameterRun : Nat → Tally → Guarded Tally
  | 0, _ => violated
  | depth + 1, tally => do
    let token ← peek
    if Cursor.isParameterToken token then
      let _ ← advance
      parameterRun depth (tally.add token)
    else return tally

def parameters (depth : Nat) (function : String) : Guarded (List String) := do
  let place := (← peek).location
  let tally ← parameterRun depth .empty
  if tally.alternating && tally.balanced then return tally.names
  else throw (.badParameters function tally.names.length tally.commas place)

def header (depth : Nat) : Guarded Header := do
  let _ ← expect (.symbol .jutsuWord)
  let name ← expect .name
  let _ ← expect (.symbol .openParen)
  let names ← parameters depth name.payload
  let _ ← expect (.symbol .closeParen)
  return ⟨name.payload,names⟩

def inBody (g : Guarded α) : Guarded α := fun r => do
  let (result,next) ← g {r with bodies := r.bodies + 1}
  return (result,{next with bodies := next.bodies - 1})

mutual

def sentence : Nat → Guarded Tree
  | 0 => violated
  | depth + 1 => do
    match (← peek).kind with
    | .symbol .jutsuWord =>
      let head ← header depth
      return Tree.definition head.name head.parameters (← body depth)
    | .symbol .ifWord =>
      let condition ← led depth .ifWord
      return Tree.conditional condition (← body depth)
    | .symbol .releaseWord => return Tree.returned (← led depth .releaseWord)
    | .symbol .printWord => return Tree.call "print" [← led depth .printWord]
    | _ => firstMatch .statement [assignment depth,expression depth]

def statement : Nat → Guarded (Option Tree)
  | 0 => violated
  | depth + 1 => do
    match (← peek).kind with
    | .newline | .finish | .symbol .closeBrace => return none
    | _ => return some (← sentence depth)

def body : Nat → Guarded (List Tree)
  | 0 => violated
  | depth + 1 => do
    let _ ← expect (.symbol .openBrace)
    let ts ← inBody (bodyStatements depth)
    let _ ← expect (.symbol .closeBrace)
    return ts

def bodyStatements : Nat → Guarded (List Tree)
  | 0 => violated
  | depth + 1 => do
    let kind := (← peek).kind
    if kind = .symbol .closeBrace ∨ kind = .finish then return []
    else
      let statement ← statement depth
      let _ ← accept [.newline]
      return statement.toList ++ (← bodyStatements depth)

end

def statements : Nat → Guarded (List Tree)
  | 0 => violated
  | depth + 1 => do
    if (← peek).kind = .finish then return []
    else
      let statement ← statement depth
      if (← peek).kind = .finish then return statement.toList
      else
        let _ ← expect .newline
        return statement.toList ++ (← statements depth)

def program : Guarded Tree := do
  return Tree.program (← statements (16 * ((← get).tokens.length + 2)))

end Guarded
theorem Guarded.augmentationPlain {kind : Token.Kind} (plain : Cursor.assigns kind = false) :
    kind ≠ .symbol .assign ∧ augmentation kind = none := by
  unfold Cursor.assigns at plain
  split at plain
  · contradiction
  · exact ⟨by simp_all,by simpa [augmentation] using plain⟩
  · rename_i other
    exact ⟨other _,by unfold augmentation; split <;> simp_all⟩

namespace Agrees
variable {α : Type} {depth : Nat} {r : Reader} {reply : Parsed α} {context : Context}

theorem assigned (name : String) (deep : r.cursor.left * 16 + 11 < depth) :
    Agrees (Guarded.assigned depth name) r (Cursor.assigned name r.cursor) := by
  have never := Cursor.advanceNever r.cursor
  refine peeked ?_
  dsimp only
  cases assigning : Cursor.assigns r.cursor.kind with
  | true =>
    rcases Cursor.assignsCases assigning with plain | ⟨s,operator,kind,applies⟩
    · have current : r.cursor.current.kind = .symbol .assign := plain
      rw [current,if_neg (by simp),Cursor.assignedPlainly plain]
      refine (advance (by simp [plain])).step (fun next same => ?_)
      rw [← same] at never ⊢
      exact expression depth next (by omega)
    · have current : Guarded.augmentation r.cursor.current.kind = some operator := by
        change Guarded.augmentation r.cursor.kind = _
        rw [kind]
        exact applies
      rw [current,if_neg (by simp),Cursor.assignedAugmented kind applies]
      refine (advance (by simp [kind])).step (fun next same => ?_)
      rw [← same] at never ⊢
      exact (level depth .disjunction next (by omega)).map
        (Tree.binary operator.spelling (Tree.identifier name))
  | false =>
    have refused := @Guarded.augmentationPlain r.cursor.current.kind assigning
    rw [if_pos refused,Cursor.assignedPlain assigning]
    exact throw _

theorem assignment (deep : r.cursor.left * 16 + 11 < depth) :
    Agrees (Guarded.assignment depth) r r.cursor.assignment := by
  refine expectThen (by simp) (fun name next shorter => ?_)
  exact (assigned name.payload (by omega)).map (Tree.assignment (Tree.identifier name.payload))

theorem led (keyword : Symbol) (deep : r.cursor.left * 16 + 11 < depth) :
    Agrees (Guarded.led depth keyword) r (Cursor.led keyword r.cursor) :=
  expectThen (by simp) (fun _ next shorter => expression depth next (by omega))

theorem boundaryRun (inside : r.Inside) : Guarded.boundary r = some (.ok r.cursor.atBoundary,r) := by
  rw [Guarded.boundary,Guarded.bindRun,Guarded.peekRun inside,Cursor.atBoundary]
  change (match r.cursor.kind with
    | .newline | .finish => (Pure.pure true : Guarded Bool)
    | kind => Pure.pure (decide (0 < r.bodies) && kind.followsInBody)) r = _
  split <;> simp_all <;> rfl

theorem completedRun (result : Except ParseError Tree) (inside : r.Inside) :
    Guarded.completed result r = some (.ok
      (if Cursor.completes ⟨result,r.cursor⟩ then result.toOption else none),r) := by
  cases result with
  | error e => rfl
  | ok t =>
    rw [Guarded.completed,Guarded.bindRun,boundaryRun inside]
    rfl

theorem furthestRun {index : Nat} (reached : index ≤ r.limit) (inside : r.Inside) :
    Guarded.token index r = some (.ok (Cursor.current ⟨r.tokens.drop index,r.bodies⟩),r) := by
  have there : Reader.Inside {r with position := index} := ⟨reached,inside.ended⟩
  exact Guarded.tokenRun there.token

theorem furtherIndex {index position : Nat} (inside : r.Inside) (reached : index ≤ r.limit)
    (there : position ≤ r.limit) :
    Cursor.further ⟨r.tokens.drop index,r.bodies⟩ ⟨r.tokens.drop position,r.bodies⟩ =
      ⟨r.tokens.drop (max index position),r.bodies⟩ := by
  have ended := inside.ended
  simp only [Cursor.further,Cursor.left,List.length_drop]
  rcases Nat.lt_or_ge index position with before | behind
  · rw [if_pos (by omega),Nat.max_eq_right (Nat.le_of_lt before)]
  · rw [if_neg (by omega),Nat.max_eq_left behind]

theorem firstMatchFrom {alternatives : List (Guarded Tree)} {productions : List Production} {index : Nat}
    (each : List.Forall₂ (fun g p => Agrees g r (p r.cursor) ∧ (p r.cursor).after.bodies = r.bodies)
      alternatives productions) (reached : index ≤ r.limit) :
    Agrees (Guarded.firstMatchFrom context r.position index alternatives) r
      (Cursor.firstMatchFrom context r.cursor ⟨r.tokens.drop index,r.bodies⟩ productions) := by
  intro inside
  induction each generalizing index with
  | nil =>
    refine ⟨r,?_,rfl,rfl,inside⟩
    rw [Guarded.firstMatchFrom,Guarded.bindRun,furthestRun reached inside]
    rfl
  | @cons g p others productions first each ih =>
    obtain ⟨agrees,bodies⟩ := first
    obtain ⟨next,run,cursor,tokens,behind⟩ := agrees inside
    have limit : next.limit = r.limit := congrArg (List.findIdx _) tokens
    have same : next.bodies = r.bodies := (congrArg Cursor.bodies cursor).trans bodies
    have tried : Guarded.attempt g r = some (.ok (p r.cursor).result,next) := by
      rw [Guarded.attempt,run]
      rfl
    rw [Guarded.firstMatchFrom,Guarded.bindRun,tried]
    simp only [Option.bind_some]
    rw [Guarded.bindRun,completedRun _ behind,cursor]
    simp only [Option.bind_some,Cursor.firstMatchFrom]
    by_cases done : Cursor.completes (p r.cursor)
    · obtain ⟨t,given⟩ := Cursor.completesOk done
      refine ⟨next,?_,?_,tokens,behind⟩
      · rw [if_pos done,if_pos done,given]
        rfl
      · rw [if_pos done,cursor]
    · have back : ({next with position := r.position} : Reader) = r := by
        rw [tokens,same]
      have place : (p r.cursor).after = ⟨r.tokens.drop next.position,r.bodies⟩ := by
        rw [← cursor,Reader.cursor,tokens,same]
      have there : next.position ≤ r.limit := limit ▸ behind.before
      obtain ⟨last,run',rest⟩ := @ih (max index next.position) (Nat.max_le.mpr ⟨reached,there⟩)
      rw [← furtherIndex inside reached there,← place] at run' rest
      rw [if_neg done,if_neg done]
      refine ⟨last,?_,rest⟩
      change (Guarded.moveTo r.position >>= fun _ =>
        Guarded.firstMatchFrom context r.position (max index next.position) others) next = _
      rw [Guarded.bindRun,Guarded.moveRun (limit ▸ inside.before),back]
      exact run'

theorem unled (deep : r.cursor.left * 16 + 11 < depth) :
    Agrees (Guarded.firstMatch .statement [Guarded.assignment depth,Guarded.expression depth]) r
      r.cursor.unled := by
  intro inside
  have each : List.Forall₂ (fun g p => Agrees g r (p r.cursor) ∧ (p r.cursor).after.bodies = r.bodies)
      [Guarded.assignment depth,Guarded.expression depth] [Cursor.assignment,Cursor.expression] :=
    .cons ⟨assignment deep,(Cursor.onwardLaw.assignment r.cursor).bodies⟩
      (.cons ⟨expression depth r deep,(Cursor.onwardLaw.expression r.cursor).bodies⟩ .nil)
  obtain ⟨next,run,rest⟩ := @firstMatchFrom r .statement _ _ r.position each inside.before inside
  refine ⟨next,?_,rest⟩
  rw [Guarded.firstMatch,Guarded.bindRun]
  exact run

theorem parameterRun (tally : Tally) (deep : r.cursor.left < depth) : Agrees (Guarded.parameterRun depth tally) r
    ⟨.ok (r.cursor.parameterRun.foldl Tally.add tally),r.cursor.pastParameters⟩ := by
  induction depth generalizing r tally with
  | zero => contradiction
  | succ depth ih =>
    rw [Guarded.parameterRun]
    refine peeked ?_
    cases parameter : Cursor.isParameterToken r.cursor.current with
    | true =>
      have more : r.cursor.kind ≠ .finish := fun kind => by simp_all [Cursor.isParameterToken,Cursor.kind]
      have shorter := Cursor.advanceShortens more
      obtain ⟨run,past⟩ := Cursor.parametersMore parameter
      rw [run,past]
      refine (advance more).step (fun next same => ?_)
      rw [← same] at shorter ⊢
      exact ih (tally.add r.cursor.current) (by omega)
    | false =>
      obtain ⟨run,past⟩ := Cursor.parametersEnd parameter
      rw [run,past]
      exact pure tally

theorem parameters (function : String) (deep : r.cursor.left < depth) :
    Agrees (Guarded.parameters depth function) r (r.cursor.parameters function) := by
  have run : Agrees (Guarded.parameterRun depth .empty) r
      ⟨.ok (Tally.ofRun r.cursor.parameterRun),r.cursor.pastParameters⟩ := parameterRun .empty deep
  refine peeked (run.step (fun next same => ?_))
  rw [Cursor.parameters,← same]
  split
  · exact pure _
  · exact throw _

theorem header (deep : r.cursor.left < depth) : Agrees (Guarded.header depth) r r.cursor.header := by
  refine expectThen (by simp) (fun _ first shorter => ?_)
  refine expectThen (by simp) (fun name second shorter' => ?_)
  refine expectThen (by simp) (fun _ third shortest => ?_)
  refine (parameters name.payload (by omega)).bind (fun names _ _ _ => ?_)
  exact (expect (by simp)).map (fun _ => (⟨name.payload,names⟩ : Header))

theorem sentenceStep (deep : r.cursor.left * 16 + 11 < depth)
    (body : ∀ next : Reader, next.cursor.left < r.cursor.left → Agrees (Guarded.body depth) next next.cursor.body) :
    Agrees (Guarded.sentence (depth + 1)) r r.cursor.sentence := by
  rw [Guarded.sentence]
  refine peeked ?_
  split <;> rename_i kind
  · have define : r.cursor.kind = .symbol .jutsuWord := kind
    rw [Cursor.sentenceStep,define]
    refine (header (by omega)).bind (fun head next given same => ?_)
    have shorter := (Cursor.headerConsumes r.cursor).2 head given
    exact (body next (by rw [same]; omega)).map (Tree.definition head.name head.parameters)
  · have test : r.cursor.kind = .symbol .ifWord := kind
    rw [Cursor.sentenceStep,test]
    refine (led .ifWord deep).bind (fun condition next given same => ?_)
    have shorter := (Cursor.ledConsumes .ifWord r.cursor).2 condition given
    exact (body next (by rw [same]; omega)).map (Tree.conditional condition)
  · have release : r.cursor.kind = .symbol .releaseWord := kind
    rw [Cursor.sentenceStep,release]
    exact (led .releaseWord deep).map Tree.returned
  · have print : r.cursor.kind = .symbol .printWord := kind
    rw [Cursor.sentenceStep,print]
    exact (led .printWord deep).map (fun t => Tree.call "print" [t])
  · have keyless : r.cursor.sentence = r.cursor.unled := by
      rw [Cursor.sentenceStep]
      split <;> simp_all [Cursor.kind]
    rw [keyless]
    exact unled deep

theorem statementStep (sentence : Agrees (Guarded.sentence depth) r r.cursor.sentence) :
    Agrees (Guarded.statement (depth + 1)) r r.cursor.statement := by
  rw [Guarded.statement]
  refine peeked ?_
  split <;> rename_i kind
  · rw [Cursor.statement,if_pos (by simp [Cursor.atBlank,Cursor.kind,kind])]
    exact pure none
  · rw [Cursor.statement,if_pos (by simp [Cursor.atBlank,Cursor.kind,kind])]
    exact pure none
  · rw [Cursor.statement,if_pos (by simp [Cursor.atBlank,Cursor.kind,kind])]
    exact pure none
  · have filled : ¬ r.cursor.atBlank := by
      unfold Cursor.atBlank
      split <;> simp_all [Cursor.kind]
    rw [Cursor.statement,if_neg filled]
    exact sentence.map some

theorem inBody {g : Guarded α} {p : Cursor → Parsed α}
    (inner : ∀ next : Reader, next.cursor = r.cursor.enterBody → Agrees g next (p next.cursor)) :
    Agrees (Guarded.inBody g) r (Cursor.leaveBody (p r.cursor.enterBody)) := by
  intro inside
  have entered : Reader.Inside {r with bodies := r.bodies + 1} := ⟨inside.before,inside.ended⟩
  obtain ⟨next,run,cursor,tokens,behind⟩ := inner {r with bodies := r.bodies + 1} rfl entered
  refine ⟨{next with bodies := next.bodies - 1},?_,?_,tokens,behind.before,behind.ended⟩
  · rw [Guarded.inBody,run]
    rfl
  · rw [Cursor.leaveBody]
    exact congrArg (fun c : Cursor => {c with bodies := c.bodies - 1}) cursor

theorem bodyStep (inner : ∀ next : Reader, next.cursor.left < r.cursor.left →
      Agrees (Guarded.bodyStatements depth) next next.cursor.bodyStatements) :
    Agrees (Guarded.body (depth + 1)) r r.cursor.body := by
  rw [Guarded.body,Cursor.bodyStep]
  refine expectThen (by simp) (fun _ next shorter => ?_)
  refine (inBody (fun inside entered => inner inside ?_)).bind (fun ts last _ _ => ?_)
  · rw [entered]
    exact shorter
  · exact (expect (by simp)).map (fun _ => ts)

theorem skipped {g : Guarded α} (go : ∀ next : Reader, next.cursor = r.cursor.pastNewline → Agrees g next reply) :
    Agrees (Guarded.accept [.newline] >>= fun _ => g) r reply := by
  by_cases newline : r.cursor.kind = .newline
  · refine accepted (by simp) (by simp [newline]) (fun next same => go next ?_)
    rw [Cursor.pastNewline,if_pos newline,same]
  · refine declined (by simp) (by simpa using newline) (fun next same => go next ?_)
    rw [Cursor.pastNewline,if_neg newline,same]

theorem innerStep (statement : Agrees (Guarded.statement depth) r r.cursor.statement)
    (inner : ∀ next : Reader, next.cursor.left < r.cursor.left →
      Agrees (Guarded.bodyStatements depth) next next.cursor.bodyStatements) :
    Agrees (Guarded.bodyStatements (depth + 1)) r r.cursor.bodyStatements := by
  rw [Guarded.bodyStatements]
  refine peeked ?_
  change Agrees (if r.cursor.kind = .symbol .closeBrace ∨ r.cursor.kind = .finish then _ else _) r _
  by_cases closes : r.cursor.kind = .symbol .closeBrace ∨ r.cursor.kind = .finish
  · rw [if_pos closes,Cursor.bodyStatementsStep]
    rcases closes with closes | closes <;> rw [closes] <;> exact pure []
  · rw [if_neg closes,Cursor.bodyStatementsRound closes,Cursor.bodyRound,Reply.andThenAndThen]
    refine statement.bind (fun line next given same => skipped (fun last past => ?_))
    have round : r.cursor.bodyRound = ⟨.ok line,last.cursor⟩ := by
      simp only [Cursor.bodyRound,Reply.andThen,given,past,same]
    change Agrees _ last (next.cursor.pastNewline.bodyStatements.map (line.toList ++ ·))
    rw [← past]
    exact (inner last (Cursor.bodyAdvances closes round).shorter).map (line.toList ++ ·)

mutual
theorem sentence (depth : Nat) (r : Reader) (deep : r.cursor.left * 16 + 12 < depth) :
    Agrees (Guarded.sentence depth) r r.cursor.sentence := by
  obtain ⟨depth,rfl⟩ := Nat.exists_eq_add_one.mpr (Nat.zero_lt_of_lt deep)
  exact sentenceStep (by omega) (fun next shorter => body depth next (by omega))
termination_by depth
theorem statement (depth : Nat) (r : Reader) (deep : r.cursor.left * 16 + 13 < depth) :
    Agrees (Guarded.statement depth) r r.cursor.statement := by
  obtain ⟨depth,rfl⟩ := Nat.exists_eq_add_one.mpr (Nat.zero_lt_of_lt deep)
  exact statementStep (sentence depth r (by omega))
termination_by depth
theorem body (depth : Nat) (r : Reader) (deep : r.cursor.left * 16 + 13 < depth) :
    Agrees (Guarded.body depth) r r.cursor.body := by
  obtain ⟨depth,rfl⟩ := Nat.exists_eq_add_one.mpr (Nat.zero_lt_of_lt deep)
  exact bodyStep (fun next shorter => bodyStatements depth next (by omega))
termination_by depth
theorem bodyStatements (depth : Nat) (r : Reader) (deep : r.cursor.left * 16 + 14 < depth) :
    Agrees (Guarded.bodyStatements depth) r r.cursor.bodyStatements := by
  obtain ⟨depth,rfl⟩ := Nat.exists_eq_add_one.mpr (Nat.zero_lt_of_lt deep)
  exact innerStep (statement depth r (by omega)) (fun next shorter => bodyStatements depth next (by omega))
termination_by depth
end

theorem statements (deep : r.cursor.left * 16 + 14 < depth) :
    Agrees (Guarded.statements depth) r r.cursor.statements := by
  induction depth generalizing r with
  | zero => contradiction
  | succ depth ih =>
    rw [Guarded.statements,Cursor.statementsStep]
    refine peeked ?_
    change Agrees (if r.cursor.kind = .finish then _ else _) r _
    by_cases ended : r.cursor.kind = .finish
    · rw [if_pos ended,if_pos ended]
      exact pure []
    rw [if_neg ended,if_neg ended]
    refine (statement depth r (by omega)).bind (fun line next _ same => peeked ?_)
    change Agrees (if next.cursor.kind = .finish then _ else _) next _
    by_cases final : next.cursor.kind = .finish
    · rw [if_pos final,if_pos final]
      exact pure line.toList
    rw [if_neg final,if_neg final]
    have never := (Cursor.statementConsumes r.cursor).1
    rw [← same] at never
    refine expectThen (by simp) (fun _ last shorter => ?_)
    exact (ih (by omega)).map (line.toList ++ ·)

theorem program (r : Reader) : Agrees Guarded.program r r.cursor.program := by
  have deep : r.cursor.left * 16 + 14 < 16 * (r.tokens.length + 2) := by
    simp only [Reader.cursor,Cursor.left,List.length_drop]
    omega
  intro inside
  obtain ⟨next,run,rest⟩ := ((statements deep).map Tree.program) inside
  refine ⟨next,?_,rest⟩
  rw [Guarded.program,Guarded.bindRun,Guarded.getRun]
  exact run

end Agrees
end JutsuSyntax
