import JutsuSyntax.Proofs.Expression.Completeness
import JutsuSyntax.Proofs.Statement.Edges
import JutsuSyntax.Proofs.Statement.Parameters
import JutsuSyntax.Statement.Reading

/-! Tokens that the grammar makes a statement of are read as that statement, in front of anything
that may follow it; the same for bodies, whatever follows. -/
namespace JutsuSyntax.Cursor
open Grammar
open Token (Symbol)

variable {c d : Cursor} {token : Token} {tokens others : List Token} {t : Tree} {ts : List Tree}

theorem boundaryKind (h : c.atBoundary) :
    c.kind = .newline ∨ c.kind = .finish ∨ c.kind.followsInBody := by
  unfold atBoundary at h
  split at h
  · exact .inl ‹_›
  · exact .inr (.inl ‹_›)
  · exact .inr (.inr (Bool.and_eq_true_iff.mp h).2)

theorem boundaryInBody (inside : 0 < c.bodies) (h : c.kind = .newline ∨ c.kind.followsInBody) :
    c.atBoundary := by
  unfold atBoundary
  split
  · rfl
  · rfl
  · rename_i other _
    simpa [inside] using h.resolve_left other

theorem atBlankIff :
    c.atBlank ↔ c.kind = .newline ∨ c.kind = .finish ∨ c.kind = .symbol .closeBrace := by
  unfold atBlank
  split <;> simp_all

def assigns : Token.Kind → Bool
  | .symbol .assign => true
  | .symbol s => s.augments.isSome
  | _ => false

theorem assignsCases {kind : Token.Kind} (h : assigns kind) : kind = .symbol .assign ∨
    ∃ s operator, kind = .symbol s ∧ s.augments = some operator := by
  unfold assigns at h
  split at h
  · exact .inl rfl
  · rename_i s _
    obtain ⟨operator,applies⟩ := Option.isSome_iff_exists.mp h
    exact .inr ⟨s,operator,rfl,applies⟩
  · contradiction

theorem boundaryPlain {kind : Token.Kind}
    (h : kind = .newline ∨ kind = .finish ∨ kind.followsInBody) : assigns kind = false := by
  rcases h with rfl | rfl | follows
  · rfl
  · rfl
  · revert follows
    cases kind with
    | symbol s => cases s <;> decide
    | _ => decide

theorem expressivePlain {kind : Token.Kind} (h : expressive kind) : assigns kind = false := by
  revert h
  cases kind with
  | symbol s => cases s <;> decide
  | _ => decide

theorem assignedPlain (plain : assigns c.kind = false) (name : String) :
    assigned name c = ⟨.error (.unexpected (.symbol .assign) c.current),c⟩ := by
  unfold assigned
  split
  · simp_all [assigns]
  · rename_i s other kind
    have none : s.augments = none := by
      rw [kind] at plain
      unfold assigns at plain
      split at plain <;> simp_all
    rw [none]
  · rfl

theorem assignedPlainly (kind : c.kind = .symbol .assign) (name : String) :
    assigned name c = c.advance.expression := by
  rw [assigned,kind]

theorem assignedAugmented {s operator} (kind : c.kind = .symbol s)
    (applies : s.augments = some operator) (name : String) : assigned name c =
      (c.advance.level .disjunction).map (Tree.binary operator.spelling (Tree.identifier name)) := by
  unfold assigned
  split
  · cases kind.symm.trans ‹_›
    contradiction
  · cases kind.symm.trans ‹_›
    rw [applies]
  · rename_i other
    exact (other s kind).elim

theorem completesOk {r : Parsed Tree} (h : completes r) : ∃ t, r.result = .ok t := by
  obtain ⟨result,after⟩ := r
  cases result with
  | error e => contradiction
  | ok t => exact ⟨t,rfl⟩

theorem firstMatchKeeps {context : Context} {alternatives : List Production} {e : ParseError} (furthest : Cursor)
    (failed : (firstMatchFrom context c furthest alternatives).result = .error e) :
    (firstMatchFrom context c furthest alternatives).after = c := by
  induction alternatives generalizing furthest with
  | nil => rfl
  | cons alternative others ih =>
    simp only [firstMatchFrom] at failed ⊢
    by_cases done : completes (alternative c)
    · obtain ⟨t,given⟩ := completesOk done
      rw [if_pos done,given] at failed
      contradiction
    · rw [if_neg done] at failed ⊢
      exact ih _ failed

theorem firstMatchEnds {context : Context} {alternatives : List Production} (furthest : Cursor)
    (read : (firstMatchFrom context c furthest alternatives).result = .ok t) :
    (firstMatchFrom context c furthest alternatives).after.atBoundary := by
  induction alternatives generalizing furthest with
  | nil => contradiction
  | cons alternative others ih =>
    simp only [firstMatchFrom] at read ⊢
    by_cases done : completes (alternative c)
    · rw [if_pos done] at read ⊢
      rwa [completes,read] at done
    · rw [if_neg done] at read ⊢
      exact ih _ read

theorem firstCompletes {a b : Production} (h : completes (a c)) (context : Context) :
    firstMatch context [a,b] c = a c := if_pos h

theorem secondCompletes {a b : Production} (first : completes (a c) = false)
    (second : completes (b c)) (context : Context) : firstMatch context [a,b] c = b c := by
  simp [firstMatch,firstMatchFrom,first,second]

theorem assignmentRefuses (o : Operand .disjunction tokens t) (boundary : c.atBoundary) :
    completes (c.back tokens).assignment = false := by
  obtain ⟨token,others,rfl,_⟩ := operandOpens o
  unfold assignment
  by_cases name : token.kind = .name
  · have plain : assigns (c.back others).kind = false := by
      cases others with
      | nil => exact boundaryPlain (boundaryKind boundary)
      | cons second others => exact expressivePlain (operandVocabulary o second (by simp))
    rw [backThen name (by simp),assignedPlain plain]
    rfl
  · rw [expect,if_neg (by simpa using name)]
    rfl

theorem sentenceUnled (h : c.kind = .name ∨ Level.disjunction.opens c.kind) :
    c.sentence = c.unled := by
  rw [sentenceStep]
  split <;> rename_i kind
  · exact absurd (kind ▸ h) (by decide)
  · exact absurd (kind ▸ h) (by decide)
  · exact absurd (kind ▸ h) (by decide)
  · exact absurd (kind ▸ h) (by decide)
  · rfl

theorem behindStops (o : Operand .disjunction tokens t) (apart : Apart (token :: tokens) c.kind)
    (boundary : c.atBoundary) : Stops .disjunction tokens c.kind :=
  stopsOfApart o ((apartCons (operandFilled o)).mp apart) (boundaryKind boundary)

theorem expressionSentence (o : Operand .disjunction tokens t) (boundary : c.atBoundary)
    (apart : Apart tokens c.kind) :
    (c.back tokens).sentence = ⟨.ok (Tree.expression t),c⟩ := by
  have read := expressionRead (operandResumes o) (stopsOfApart o apart (boundaryKind boundary))
  have opening : Level.disjunction.opens (c.back tokens).kind := by
    obtain ⟨token,others,rfl,opens⟩ := operandOpens o
    exact opens
  rw [sentenceUnled (.inr opening),unled,
    secondCompletes (assignmentRefuses o boundary) (by rw [read]; exact boundary),read]

theorem assignmentSentence {value : Tree} (named : token.kind = .name) (boundary : c.atBoundary)
    (read : assigned token.payload (c.back tokens) = ⟨.ok value,c⟩) :
    (c.back (token :: tokens)).sentence =
      ⟨.ok (Tree.assignment (Tree.identifier token.payload) value),c⟩ := by
  have whole : (c.back (token :: tokens)).assignment =
      ⟨.ok (Tree.assignment (Tree.identifier token.payload) value),c⟩ := by
    rw [assignment,backThen named (by simp),read]
    rfl
  rw [sentenceUnled (.inl (backKind.trans named)),unled,firstCompletes (by rw [whole]; exact boundary),whole]

theorem ledRead {keyword} (kind : token.kind = .symbol keyword) (o : Operand .disjunction tokens t)
    (stops : Stops .disjunction tokens c.kind) :
    led keyword (c.back (token :: tokens)) = ⟨.ok (Tree.expression t),c⟩ := by
  rw [led,backThen kind (by simp)]
  exact expressionRead (operandResumes o) stops

theorem headerRead {keyword name opening closing : Token} {names}
    (kind : keyword.kind = .symbol .jutsuWord) (named : name.kind = .name)
    (opens : opening.kind = .symbol .openParen) (list : Parameters tokens names)
    (closes : closing.kind = .symbol .closeParen) :
    (c.back (keyword :: name :: opening :: tokens ++ [closing])).header =
      ⟨.ok ⟨name.payload,names⟩,c⟩ := by
  obtain ⟨alternating,balanced,same⟩ := Tally.ofRunComplete list
  have last : isParameterToken closing = false := by simp [isParameterToken,closes]
  obtain ⟨run,past⟩ : ((c.back [closing]).back tokens).parameterRun = tokens ∧
      ((c.back [closing]).back tokens).pastParameters = c.back [closing] :=
    parametersCut (parametersOnly list) (by simpa [back] using last)
  have read : parameters name.payload ((c.back [closing]).back tokens) =
      ⟨.ok names,c.back [closing]⟩ := by
    simp [parameters,run,past,alternating,balanced,same]
  rw [header,List.cons_append,backThen kind (by simp),List.cons_append,backThen named (by simp),
    List.cons_append,backThen opens (by simp),backAppend,read]
  simp only [Reply.andThen,Reply.map,Except.map,backExpect closes (by simp),backNil]

theorem conditionalSentence {inner} (kind : token.kind = .symbol .ifWord)
    (o : Operand .disjunction tokens t)
    (opening : ∃ first rest, inner = first :: rest ∧ first.kind = .symbol .openBrace)
    (read : (c.back inner).body = ⟨.ok ts,c⟩) :
    (c.back (token :: tokens ++ inner)).sentence =
      ⟨.ok (Tree.conditional (Tree.expression t) ts),c⟩ := by
  have stops : Stops .disjunction tokens (c.back inner).kind := by
    obtain ⟨first,rest,rfl,opens⟩ := opening
    rw [backKind,opens]
    exact stopsUnlessJoint (by decide) (by decide)
  rw [backAppend,sentenceStep,backKind,kind]
  simp only [ledRead kind o stops,Reply.andThen,read]
  rfl

theorem definitionSentence {keyword name opening closing : Token} {inner names}
    (kind : keyword.kind = .symbol .jutsuWord) (named : name.kind = .name)
    (opens : opening.kind = .symbol .openParen) (list : Parameters tokens names)
    (closes : closing.kind = .symbol .closeParen) (read : (c.back inner).body = ⟨.ok ts,c⟩) :
    (c.back (keyword :: name :: opening :: tokens ++ closing :: inner)).sentence =
      ⟨.ok (Tree.definition name.payload names ts),c⟩ := by
  rw [List.append_cons,backAppend,sentenceStep,List.cons_append,backKind,kind]
  simp only [← List.cons_append,headerRead kind named opens list closes,Reply.andThen,read]
  rfl

theorem bracesBody {opening closing : Token} (opens : opening.kind = .symbol .openBrace)
    (closes : closing.kind = .symbol .closeBrace)
    (read : ∀ d : Cursor, 0 < d.bodies → d.kind = .symbol .closeBrace →
      (d.back tokens).bodyStatements = ⟨.ok ts,d⟩) :
    (c.back (opening :: tokens ++ [closing])).body = ⟨.ok ts,c⟩ := by
  have inside := read (c.back [closing]).enterBody (Nat.succ_pos _) closes
  rw [List.cons_append,bodyStep,backThen opens (by simp),backAppend]
  change (leaveBody (((c.back [closing]).enterBody.back tokens).bodyStatements)).andThen _ = _
  rw [inside]
  simp only [leaveBody,Reply.andThen]
  change ((c.back [closing]).expect _).map _ = _
  rw [backExpect closes (by simp)]
  rfl

theorem pastNewlineStatements : c.pastNewline.bodyStatements = c.bodyStatements := by
  unfold pastNewline
  split
  · rename_i newline
    rw [bodyStatementsStep c,newline]
  · rfl

theorem moreStatements (opening : ∃ first rest, tokens = first :: rest ∧ first.kind.followsInBody ∧
      first.kind ≠ .symbol .closeBrace)
    (first : (c.back tokens).sentence = ⟨.ok t,c⟩) {d : Cursor}
    (rest : c.bodyStatements = ⟨.ok ts,d⟩) :
    (c.back tokens).bodyStatements = ⟨.ok (t :: ts),d⟩ := by
  obtain ⟨token,others,rfl,follows,open'⟩ := opening
  rw [bodyStatementsStep]
  split <;> rename_i kind
  · exact absurd kind open'
  · rw [backKind] at kind
    rw [kind] at follows
    contradiction
  · rw [backKind] at kind
    rw [kind] at follows
    contradiction
  · rw [first]
    simp only [Reply.andThen,pastNewlineStatements,rest]
    rfl

theorem statementsEdge (h : Statements tokens ts) (closes : c.kind = .symbol .closeBrace) :
    (c.back tokens).kind = .newline ∨ (c.back tokens).kind.followsInBody := by
  cases h with
  | none => exact .inr (by rw [backNil,closes]; decide)
  | blank kind rest => exact .inl kind
  | more first apart rest =>
    obtain ⟨token,others,rfl,follows,_⟩ := statementOpens first
    exact .inr follows

theorem statementsApart {others} (apart : Separate tokens others)
    (closes : c.kind = .symbol .closeBrace) : Apart tokens (c.back others).kind := by
  cases others with
  | nil => exact apartOther (by simp [closes]) (by simp [closes])
  | cons first rest => exact separateCons.mp apart

mutual
theorem sentenceRead {tokens t} : Statement tokens t → ∀ {c : Cursor}, c.atBoundary →
    Apart tokens c.kind → (c.back tokens).sentence = ⟨.ok t,c⟩
  | .expression only, _, boundary, apart => expressionSentence only boundary apart
  | .assignment named kind value, c, boundary, apart => by
    have stops := behindStops value ((apartCons (by simp)).mp apart) boundary
    refine assignmentSentence named boundary ?_
    rw [assignedPlainly (backKind.trans kind),backSymbol kind]
    exact expressionRead (operandResumes value) stops
  | .augmented named kind applies value, c, boundary, apart => by
    have stops := behindStops value ((apartCons (by simp)).mp apart) boundary
    refine assignmentSentence named boundary ?_
    rw [assignedAugmented (backKind.trans kind) applies,backSymbol kind,operandRead value stops]
    rfl
  | .returned kind value, c, boundary, apart => by
    rw [sentenceStep,backKind,kind]
    simp only [ledRead kind value (behindStops value apart boundary)]
    rfl
  | .print kind value, c, boundary, apart => by
    rw [sentenceStep,backKind,kind]
    simp only [ledRead kind value (behindStops value apart boundary)]
    rfl
  | .conditional kind condition body, _, _, _ =>
    conditionalSentence kind condition (bodyOpens body) (bodyRead body)
  | .definition kind named opens list closes body, _, _, _ =>
    definitionSentence kind named opens list closes (bodyRead body)
theorem bodyRead {tokens ts} : Body tokens ts → ∀ {c : Cursor}, (c.back tokens).body = ⟨.ok ts,c⟩
  | .braces opens inner closes, c => bracesBody opens closes (fun _ => statementsRead inner)
theorem statementsRead {tokens ts} : Statements tokens ts → ∀ {c : Cursor}, 0 < c.bodies →
    c.kind = .symbol .closeBrace → (c.back tokens).bodyStatements = ⟨.ok ts,c⟩
  | .none, c, _, closes => by
    rw [bodyStatementsStep,backNil,closes]
  | .blank kind rest, c, inside, closes => by
    rw [bodyStatementsStep,backKind,kind]
    simp only [backNewline kind]
    exact statementsRead rest inside closes
  | .more first apart rest, c, inside, closes => by
    rw [backAppend]
    have boundary := boundaryInBody (c := c.back _) inside (statementsEdge rest closes)
    exact moreStatements (statementOpens first)
      (sentenceRead first boundary (statementsApart apart closes)) (statementsRead rest inside closes)
end

theorem statementNone (read : c.statement = ⟨.ok none,d⟩) : c.atBlank ∧ d = c := by
  unfold statement at read
  split at read
  · rename_i blank
    cases read
    exact ⟨blank,rfl⟩
  · obtain ⟨t,_,same⟩ := Reply.mapOk read
    cases same

theorem statementSome (read : c.statement = ⟨.ok (some t),d⟩) :
    c.atBlank = false ∧ c.sentence = ⟨.ok t,d⟩ := by
  unfold statement at read
  split at read
  · cases read
  · rename_i filled
    obtain ⟨t,sentence,same⟩ := Reply.mapOk read
    cases same
    exact ⟨by simpa using filled,sentence⟩

theorem statementRead (h : Statement tokens t) (boundary : c.atBoundary) (apart : Apart tokens c.kind) :
    (c.back tokens).statement = ⟨.ok (some t),c⟩ := by
  have read := sentenceRead h boundary apart
  obtain ⟨token,others,rfl,follows,inside⟩ := statementOpens h
  have filled : ¬ (c.back (token :: others)).atBlank := by
    rw [atBlankIff,backKind]
    rintro (kind | kind | kind)
    · rw [kind] at follows
      contradiction
    · rw [kind] at follows
      contradiction
    · exact inside kind
  rw [statement,if_neg filled,read]
  rfl

end JutsuSyntax.Cursor
