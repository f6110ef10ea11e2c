import JutsuSyntax.Proofs.Expression.Outcome
import JutsuSyntax.Proofs.Statement.Completeness

/-! What reading a statement without a keyword gives. Its two alternatives are told apart by the
token behind a name; a statement that is neither is blamed on the later of the two tokens that
they stop at. -/
namespace JutsuSyntax.Cursor
open Grammar

variable {ahead rest tokens : List Token} {token : Token} {t : Tree}

def PastSign (tokens : List Token) : Prop :=
  ∃ target sign others, tokens = target :: sign :: others ∧ assigns sign.kind

def Starts (tokens : List Token) : Prop := ∃ more t, Statement (tokens ++ more) t

def AssignmentPasses (passed : List Token) (token : Token) (t : Tree) : Prop :=
  PastSign passed ∧ Statement passed t ∧ Apart passed token.kind

/- Where an assignment fails, the tokens before are the front of a statement: of a name that may be
an expression, or behind the sign of an assignment. -/
def AssignmentFails (passed back : List Token) (_ : Token) (_ : ParseError) : Prop :=
  back = [] ∧ (passed = [] ∨ (∃ target : Token, passed = [target] ∧ target.kind = .name) ∨
    PastSign passed ∧ Starts passed)

def AssignmentReads (ahead : List Token) : Prop :=
  Outcome (fun _ => True) AssignmentPasses AssignmentFails assignment ahead

theorem assignedOutcome {target sign : Token} {p : Cursor → Parsed Tree} {f : Tree → Tree}
    (assigning : assigns sign.kind) (ends : Ends rest)
    (whole : ∀ tokens t, Operand .disjunction tokens t → Statement (target :: sign :: tokens) (f t))
    (read : ∀ c : Cursor, c.kind = sign.kind → p c = (c.advance.level .disjunction).map f) :
    Outcome (fun _ => True) (fun passed => AssignmentPasses (target :: passed))
      (fun passed => AssignmentFails (target :: passed)) p (sign :: rest) := by
  obtain ⟨filler,some,operand⟩ := makesSome .disjunction
  have more : sign.kind ≠ .finish := by
    intro ended
    simp [ended,assigns] at assigning
  have value : Outcome (fun _ => True) (fun passed => AssignmentPasses (target :: sign :: passed))
      (fun passed => AssignmentFails (target :: sign :: passed))
      (fun c => (c.level .disjunction).map f) rest := by
    refine Outcome.map (Outcome.weaken (levelReads .disjunction rest ends) ?_ ?_)
    · intro passed token _ t _ given
      obtain ⟨inner,stops⟩ := given
      have filled := operandFilled inner
      refine ⟨⟨target,sign,passed,rfl,assigning⟩,whole _ _ inner,?_⟩
      exact (apartCons (List.cons_ne_nil _ _)).mpr ((apartCons filled).mpr (apartOfStops stops))
    · intro passed back token _ e _ given
      obtain ⟨plain,blamed⟩ := given
      refine ⟨plain.1,.inr (.inr ⟨⟨target,sign,passed,rfl,assigning⟩,?_⟩)⟩
      rw [plain.1,List.append_nil] at blamed
      by_cases none : passed = []
      · exact ⟨filler,_,by simpa [none] using whole _ _ operand⟩
      · obtain ⟨more,t,inner⟩ := blamed.viable plain none
        exact ⟨more,_,whole _ _ inner⟩
  obtain ⟨second,others,rfl⟩ := endsFilled ends
  exact Outcome.pass more value (fun c kind _ _ => read c kind)

theorem assignmentReads (ends : Ends ahead) : AssignmentReads ahead := by
  refine Outcome.expectThen ends (by simp) (fun a b same => ?_) (fun _ _ _ => ⟨rfl,.inl rfl⟩) ?_
  · simp only [same]
  intro target rest _ named later
  obtain ⟨sign,others,rfl⟩ := endsFilled later
  by_cases assigning : assigns sign.kind
  · have behind : Ends others := endsPast later (fun ended => by simp [ended,assigns] at assigning)
    rcases assignsCases assigning with plain | ⟨s,operator,augmented,applies⟩
    · refine assignedOutcome (f := fun t => Tree.assignment (Tree.identifier target.payload)
        (Tree.expression t)) assigning behind (fun _ _ value => .assignment named plain value) ?_
      intro c kind
      rw [assignedPlainly (kind.trans plain),expression,Reply.mapMap]
    · refine assignedOutcome (f := fun t => Tree.assignment (Tree.identifier target.payload)
        (Tree.binary operator.spelling (Tree.identifier target.payload) t)) assigning behind
        (fun _ _ value => .augmented named augmented applies value) ?_
      intro c kind
      rw [assignedAugmented (kind.trans augmented) applies,Reply.mapMap]
  · have plain : assigns sign.kind = false := by simpa using assigning
    refine Outcome.congr (Outcome.refuse (f := .unexpected (.symbol .assign)) ?_ (fun _ _ => rfl)) ?_
    · exact ⟨rfl,.inr (.inl ⟨target,rfl,named⟩)⟩
    · intro c kind _
      rw [assignedPlain (kind ▸ plain)]
      rfl

def ExpressionPasses (passed : List Token) (token : Token) (t : Tree) : Prop :=
  ∃ u, t = Tree.expression u ∧ Operand .disjunction passed u ∧ Stops .disjunction passed token.kind

def ExpressionFails (passed back : List Token) (token : Token) (e : ParseError) : Prop :=
  Plain back e ∧ Blames (Makes .disjunction) (passed ++ back) token e

structure StopsAt (good : List Token → Token → Tree → Prop)
    (bad : List Token → List Token → Token → ParseError → Prop) (p : Production)
    (ahead passed : List Token) (token : Token) (rest : List Token) (result : Except ParseError Tree) :
    Prop where
  same : ahead = passed ++ token :: rest
  unended : ∀ x ∈ passed, x.kind ≠ .finish
  settled : Settles (fun _ => True) p passed [] token result
  passes : ∀ t, result = .ok t → good passed token t
  fails : ∀ e, result = .error e → bad passed [] token e

theorem stopsSomewhere {good : List Token → Token → Tree → Prop}
    {bad : List Token → List Token → Token → ParseError → Prop} {p : Production}
    (h : Outcome (fun _ => True) good bad p ahead)
    (plain : ∀ passed back token e, bad passed back token e → back = []) :
    ∃ passed token rest result, StopsAt good bad p ahead passed token rest result := by
  cases h with
  | @passes passed token rest t same unended settled fits =>
    refine ⟨passed,token,rest,.ok t,same,unended,settled,fun u h => ?_,fun e h => ?_⟩
    · cases h
      exact fits
    · contradiction
  | @fails passed back token rest e same unended settled fits =>
    cases plain _ _ _ _ fits
    rw [List.append_nil] at same unended
    refine ⟨passed,token,rest,.error e,same,unended,settled,fun t h => ?_,fun u h => ?_⟩
    · contradiction
    · cases h
      exact fits

def ending (inside : Bool) (kind : Token.Kind) : Bool :=
  kind == .newline || kind == .finish || inside && kind.followsInBody

theorem boundaryEnding {c : Cursor} {inside : Bool} (h : decide (0 < c.bodies) = inside) :
    c.atBoundary = ending inside c.kind := by
  unfold atBoundary ending
  rw [h]
  split <;> rename_i kind
  · simp [kind]
  · simp [kind]
  · rename_i other
    have newline : c.kind ≠ .newline := other
    have finish : c.kind ≠ .finish := kind
    simp [newline,finish]

theorem endingKind {inside : Bool} {kind : Token.Kind} (h : ending inside kind) :
    kind = .newline ∨ kind = .finish ∨ kind.followsInBody := by
  simp only [ending,Bool.or_eq_true,Bool.and_eq_true,beq_iff_eq,or_assoc] at h
  exact h.imp_right (Or.imp_right And.right)

def taken (inside : Bool) (result : Except ParseError Tree) (kind : Token.Kind) : Bool :=
  result.toBool && ending inside kind

theorem completesTaken {inside : Bool} {r : Parsed Tree} {result kind place}
    (same : r.result = Except.mapError (ParseError.moved place) result) (next : r.after.kind = kind)
    (h : decide (0 < r.after.bodies) = inside) : completes r = taken inside result kind := by
  cases result with
  | error e => rw [completes,same]; rfl
  | ok t =>
    rw [completes,same]
    simpa [taken,Except.toBool,next] using boundaryEnding h

def Inside (inside : Bool) (n : Nat) : Prop := decide (0 < n) = inside

def StatementReads (p : Production) (inside : Bool) (ahead : List Token) : Prop :=
  Reads (Inside inside) (fun _ _ => True)
    (fun passed token t => Statement passed t ∧ Apart passed token.kind)
    (fun tokens => ∃ t, Statement tokens t) p ahead

theorem shorterFront {front back : List Token} {first last : Token} {more rest : List Token}
    (same : front ++ first :: more = back ++ last :: rest) (shorter : front.length ≤ back.length) :
    ∃ others, back ++ [last] = front ++ first :: others := by
  rcases List.append_eq_append_iff.mp same with ⟨between,rfl,behind⟩ | ⟨between,rfl,behind⟩
  · obtain ⟨others,head⟩ := seenHead behind
    exact ⟨others,by rw [List.append_assoc,head]⟩
  · rw [List.length_append] at shorter
    cases between with
    | nil =>
      cases behind
      exact ⟨[],by simp⟩
    | cons x xs =>
      rw [List.length_cons] at shorter
      omega

theorem settledBehind {α : Type} {p : Cursor → Parsed α} {passed more seen : List Token}
    {result : Except ParseError α} (h : Settles within p passed [] token result)
    (front : seen = passed ++ token :: more) {n : Nat} (counts : within n) (place) (later) :
    p ⟨seen.map (Token.moved place) ++ later,n⟩ =
      ⟨result.mapError (ParseError.moved place),⟨(token :: more).map (Token.moved place) ++ later,n⟩⟩ := by
  have read := h n counts place (more.map (Token.moved place) ++ later)
  rw [front]
  simpa using read

theorem takenBehind {p : Cursor → Parsed Tree} {passed more seen : List Token} {inside : Bool}
    {result : Except ParseError Tree} (h : Settles (fun _ => True) p passed [] token result)
    (front : seen = passed ++ token :: more) {n : Nat} (counts : Inside inside n) (place) (later) :
    completes (p ⟨seen.map (Token.moved place) ++ later,n⟩) = taken inside result token.kind := by
  rw [settledBehind h front trivial place later]
  exact completesTaken rfl rfl counts

theorem takenThere {p : Production} {passed : List Token} {inside : Bool}
    {result : Except ParseError Tree} (h : Settles (fun _ => True) p passed [] token result) {n : Nat}
    (counts : Inside inside n) (place) (later) :
    completes (p ⟨(passed ++ [] ++ [token]).map (Token.moved place) ++ later,n⟩) =
      taken inside result token.kind := by
  rw [h n trivial place later]
  exact completesTaken rfl rfl counts

theorem assignmentLonger {passed more : List Token} {first last : Token} {inside : Bool}
    (assigning : PastSign passed) (same : passed ++ first :: more = tokens ++ last :: rest)
    (o : Operand .disjunction tokens t) (ends : ending inside last.kind) : False := by
  obtain ⟨target,sign,others,rfl,assigning⟩ := assigning
  cases tokens with
  | nil => exact operandFilled o rfl
  | cons x tokens =>
    obtain ⟨rfl,behind⟩ := List.cons.inj same
    have plain : assigns sign.kind = false := by
      cases tokens with
      | nil =>
        obtain ⟨rfl,_⟩ := List.cons.inj behind
        exact boundaryPlain (endingKind ends)
      | cons y tokens =>
        obtain ⟨rfl,_⟩ := List.cons.inj behind
        exact expressivePlain (operandVocabulary o sign (by simp))
    rw [plain] at assigning
    contradiction

theorem furtherBehind {front back : List Token} {first last : Token} {more others seen : List Token}
    (one : seen = front ++ first :: more) (two : seen = back ++ last :: others) (place) (later)
    (n : Nat) :
    (further (further ⟨seen.map (Token.moved place) ++ later,n⟩
        ⟨(first :: more).map (Token.moved place) ++ later,n⟩)
      ⟨(last :: others).map (Token.moved place) ++ later,n⟩).current =
      if front.length < back.length then last.moved place else first.moved place := by
  have begun : further ⟨seen.map (Token.moved place) ++ later,n⟩
      ⟨(first :: more).map (Token.moved place) ++ later,n⟩ =
      ⟨(first :: more).map (Token.moved place) ++ later,n⟩ := by
    cases front with
    | nil => simp [one,further]
    | cons x xs =>
      refine if_pos ?_
      simp only [left,one,List.length_append,List.length_map,List.length_cons]
      omega
  have lengths : front.length + (more.length + 1) = back.length + (others.length + 1) := by
    simpa using congrArg List.length (one.symm.trans two)
  rw [begun,further]
  by_cases longer : front.length < back.length
  · rw [if_pos longer,if_pos]
    · rfl
    · simp only [left,List.length_append,List.length_map,List.length_cons]
      omega
  · rw [if_neg longer,if_neg]
    · rfl
    · simp only [left,List.length_append,List.length_map,List.length_cons]
      omega

theorem refusedUnled {front back seen : List Token} {first last found : Token}
    {more others : List Token} {inside : Bool} {result outcome : Except ParseError Tree}
    (one : Settles (fun _ => True) assignment front [] first result)
    (two : Settles (fun _ => True) expression back [] last outcome)
    (refused : taken inside result first.kind = false)
    (neither : taken inside outcome last.kind = false)
    (same : seen ++ [found] = front ++ first :: more) (same' : seen ++ [found] = back ++ last :: others)
    (later : (if front.length < back.length then last else first) = found) :
    Settles (Inside inside) unled [] seen found (.error (.noAlternative .statement found)) := by
  intro n counts place behind
  have first' := takenBehind one same counts place behind
  have second := takenBehind two same' counts place behind
  rw [List.nil_append,unled,firstMatch,firstMatchFrom,firstMatchFrom,firstMatchFrom]
  simp only [first',refused,second,neither,Bool.false_eq_true,if_false]
  rw [settledBehind one same trivial place behind,settledBehind two same' trivial place behind]
  dsimp only
  rw [furtherBehind same same',← apply_ite (Token.moved place),later]
  rfl

section
variable {inside : Bool} {front back : List Token} {first last : Token} {more others : List Token}
  {result outcome : Except ParseError Tree}

abbrev AssignmentStops := StopsAt AssignmentPasses AssignmentFails assignment
abbrev ExpressionStops := StopsAt ExpressionPasses ExpressionFails expression

theorem takenOk {kind : Token.Kind} (h : taken inside result kind) : ∃ t, result = .ok t := by
  cases result with
  | error e => contradiction
  | ok t => exact ⟨t,rfl⟩

theorem assignmentFront (one : AssignmentStops ahead front first more result) :
    front = [] ∨ (∃ target : Token, front = [target] ∧ target.kind = .name) ∨
      PastSign front ∧ Starts front := by
  cases result with
  | error e => exact (one.fails e rfl).2
  | ok t =>
    obtain ⟨past,whole,_⟩ := one.passes t rfl
    exact .inr (.inr ⟨past,[],t,by simpa using whole⟩)

theorem unledAssignment (one : AssignmentStops ahead front first more result)
    (taking : taken inside result first.kind) : StatementReads unled inside ahead := by
  obtain ⟨t,rfl⟩ := takenOk taking
  refine .passes one.same one.unended (fun n counts place later => ?_) (one.passes t rfl).2
  rw [unled,firstCompletes,one.settled n trivial place later]
  rwa [takenThere one.settled counts place later]

theorem unledExpression (one : AssignmentStops ahead front first more result)
    (two : ExpressionStops ahead back last others outcome)
    (refused : taken inside result first.kind = false) (taking : taken inside outcome last.kind) :
    StatementReads unled inside ahead := by
  obtain ⟨t,rfl⟩ := takenOk taking
  obtain ⟨u,rfl,operand,stops⟩ := two.passes t rfl
  have same := one.same.symm.trans two.same
  -- The assignment looks no further than the expression does: nothing behind settles it.
  have shorter : front.length ≤ back.length := by
    have filled := List.length_pos_iff.mpr (operandFilled operand)
    rcases assignmentFront one with rfl | ⟨target,rfl,_⟩ | ⟨past,_⟩
    · exact Nat.zero_le _
    · exact filled
    · obtain ⟨_,ends⟩ := Bool.and_eq_true_iff.mp taking
      exact (assignmentLonger past same operand ends).elim
  obtain ⟨between,seen⟩ := shorterFront same shorter
  refine .passes two.same two.unended (fun n counts place later => ?_)
    ⟨.expression operand,apartOfStops stops⟩
  rw [unled,secondCompletes,two.settled n trivial place later]
  · rwa [takenBehind one.settled (by simpa using seen) counts place later]
  · rwa [takenThere two.settled counts place later]

theorem expressionStarts (two : ExpressionStops ahead back last others outcome) (filled : back ≠ []) :
    Starts back := by
  cases outcome with
  | ok t =>
    obtain ⟨u,rfl,operand,_⟩ := two.passes t rfl
    exact ⟨[],_,by simpa using .expression operand⟩
  | error e =>
    obtain ⟨plain,blamed⟩ := two.fails e rfl
    rw [List.append_nil] at blamed
    obtain ⟨rest,t,operand⟩ := blamed.viable plain filled
    exact ⟨rest,_,.expression operand⟩

theorem assignmentStarts (one : AssignmentStops ahead front first more result) (filled : front ≠ []) :
    Starts front := by
  rcases assignmentFront one with rfl | ⟨target,rfl,named⟩ | ⟨_,starts⟩
  · contradiction
  · exact ⟨[],_,.expression (nameOperand .disjunction named)⟩
  · exact starts

/- Neither alternative is taken: the statement is refused at the later of their tokens, which both
have not looked beyond. -/
theorem unledRefused (one : AssignmentStops ahead front first more result)
    (two : ExpressionStops ahead back last others outcome)
    (refused : taken inside result first.kind = false)
    (neither : taken inside outcome last.kind = false) : StatementReads unled inside ahead := by
  have same := one.same.symm.trans two.same
  by_cases longer : front.length < back.length
  · obtain ⟨between,seen⟩ := shorterFront same (Nat.le_of_lt longer)
    refine .fails (by simpa using two.same) (by simpa using two.unended)
      (refusedUnled one.settled two.settled refused neither seen rfl (if_pos longer)) ⟨trivial,rfl,?_⟩
    exact fun filled => expressionStarts two (by simpa using filled)
  · obtain ⟨between,seen⟩ := shorterFront same.symm (Nat.le_of_not_lt longer)
    refine .fails (by simpa using one.same) (by simpa using one.unended)
      (refusedUnled one.settled two.settled refused neither rfl seen (if_neg longer)) ⟨trivial,rfl,?_⟩
    exact fun filled => assignmentStarts one (by simpa using filled)

end

theorem unledReads (inside : Bool) (ends : Ends ahead) : StatementReads unled inside ahead := by
  obtain ⟨front,first,more,result,one⟩ :=
    stopsSomewhere (assignmentReads ends) (fun _ _ _ _ bad => bad.1)
  obtain ⟨back,last,others,outcome,two⟩ : ∃ back last others outcome,
      ExpressionStops ahead back last others outcome :=
    stopsSomewhere (expressionReads (levelReads .disjunction ahead ends)) (fun _ _ _ _ bad => bad.1.1)
  cases refused : taken inside result first.kind with
  | true => exact unledAssignment one refused
  | false =>
    cases neither : taken inside outcome last.kind with
    | true => exact unledExpression one two refused neither
    | false => exact unledRefused one two refused neither

end JutsuSyntax.Cursor
