import JutsuSyntax.Expression.Reading
import JutsuSyntax.Proofs.Expression.Edges

/-! Tokens that the grammar makes an expression of are read as that expression, in front of
anything that does not go on with it. -/
namespace JutsuSyntax.Cursor
open Grammar
open Token (Symbol)

variable {c : Cursor} {l next : Level} {token : Token} {tokens : List Token} {t : Tree}

def back (c : Cursor) (tokens : List Token) : Cursor := {c with ahead := tokens ++ c.ahead}

@[simp] theorem backNil : c.back [] = c := rfl

@[simp] theorem backAppend {others} : c.back (tokens ++ others) = (c.back others).back tokens := by
  simp [back]

@[simp] theorem backKind : (c.back (token :: tokens)).kind = token.kind := rfl

@[simp] theorem backPayload : (c.back (token :: tokens)).payload = token.payload := rfl

theorem backAdvance (more : token.kind ≠ .finish) :
    (c.back (token :: tokens)).advance = c.back tokens := by
  rw [advance,if_neg (by simpa using more)]
  rfl

theorem backSymbol {s} (kind : token.kind = .symbol s) :
    (c.back (token :: tokens)).advance = c.back tokens := backAdvance (by simp [kind])

theorem backNewline (kind : token.kind = .newline) :
    (c.back (token :: tokens)).advance = c.back tokens := backAdvance (by simp [kind])

theorem backExpect {kind} (same : token.kind = kind) (more : kind ≠ .finish) :
    (c.back (token :: tokens)).expect kind = ⟨.ok token,c.back tokens⟩ := by
  rw [expect,if_pos (by simpa using same),backAdvance (same ▸ more)]
  rfl

theorem backThen {α : Type} {kind} (same : token.kind = kind) (more : kind ≠ .finish)
    (next : Token → Cursor → Parsed α) :
    ((c.back (token :: tokens)).expect kind).andThen next = next token (c.back tokens) := by
  rw [backExpect same more]
  rfl

def resume (l : Level) (t : Tree) (c : Cursor) : Parsed Tree :=
  match l.form with
  | .chain operators operand => chain operators operand t c
  | _ => ⟨.ok t,c⟩

def firstLevel (l : Level) : Level :=
  match l.form with
  | .chain _ operand => operand
  | _ => l

theorem resumeStop (stops : Stops l tokens c.kind) : resume l t c = ⟨.ok t,c⟩ := by
  unfold resume
  split
  · rename_i operators operand form
    refine chainStop (fun s member => stops.1 s ?_) operand t
    exact Level.jointsChain form ▸ List.mem_append_left _ member
  · rfl

theorem firstStops {kind} (stops : Stops l tokens kind) : Stops (firstLevel l) tokens kind := by
  unfold firstLevel
  split
  · rename_i form
    refine stopsTighter (fun s member => ?_) stops
    exact Level.jointsChain form ▸ List.mem_append_right _ member
  · exact stops

/- A chain is derived from its right end and read from its left one. So what is shown of a
derivation leaves the rest of the chain open: the reader gets behind the tokens, with their tree
as its left operand. -/
def Resumes (l : Level) (tokens : List Token) (t : Tree) : Prop :=
  ∀ c : Cursor, Stops (firstLevel l) tokens c.kind → (c.back tokens).level l = resume l t c

theorem Resumes.read (h : Resumes l tokens t) (stops : Stops l tokens c.kind) :
    (c.back tokens).level l = ⟨.ok t,c⟩ := by
  rw [h c (firstStops stops),resumeStop stops]

theorem resumesTighter {operators} (form : l.form = .chain operators next)
    (only : Resumes next tokens t) : Resumes l tokens t := by
  intro c stops
  simp only [firstLevel,form] at stops
  simp only [levelChain form,only.read stops,resume,form]
  rfl

theorem resumesChain {operators before sign after s left right}
    (form : l.form = .chain operators next) (member : s ∈ operators) (kind : sign.kind = .symbol s)
    (filled : after ≠ []) (first : Resumes l before left) (last : Resumes next after right) :
    Resumes l (before ++ sign :: after) (Tree.binary s.spelling left right) := by
  intro c stops
  have joint : s ∈ l.joints := Level.jointsChain form ▸ List.mem_append_left _ member
  have apart : Stops (firstLevel l) before (c.back (sign :: after)).kind := by
    simp only [firstLevel,form,backKind,kind]
    exact stopsAt (Level.chainApart form s member)
      (fun paren => absurd (l.jointsIncluded s joint) (paren ▸ by decide))
  have behind : Stops next after c.kind := by
    rw [List.append_cons,stopsBehind filled] at stops
    simpa only [firstLevel,form] using stops
  calc (c.back (before ++ sign :: after)).level l
      = chain operators next left (c.back (sign :: after)) := by
        rw [backAppend,first _ apart,resume,form]
    _ = ((c.back after).level next).andThen
          (fun right d => chain operators next (Tree.binary s.spelling left right) d) := by
        rw [chainStep member (backKind.trans kind),backSymbol kind]
    _ = resume l (Tree.binary s.spelling left right) c := by
        rw [last.read behind,resume,form]
        rfl

theorem resumesUnsigned {operator} (form : l.form = .sign operator next)
    (opening : ∃ token others, tokens = token :: others ∧ next.opens token.kind)
    (only : Resumes next tokens t) : Resumes l tokens t := by
  intro c stops
  obtain ⟨token,others,rfl,opens⟩ := opening
  have plain : (c.back (token :: others)).kind ≠ .symbol operator := by
    intro (same : token.kind = _)
    rw [same,(Level.signOpens form).2] at opens
    contradiction
  have tighter : Stops next (token :: others) c.kind := by
    simp only [firstLevel,form] at stops
    exact stopsTighter (fun s member => Level.jointsSign form ▸ member) stops
  rw [levelSign form,if_neg plain,only.read tighter,resume,form]

theorem resumesSigned {operator} (form : l.form = .sign operator next)
    (kind : token.kind = .symbol operator) (filled : tokens ≠ []) (operand : Resumes l tokens t) :
    Resumes l (token :: tokens) (Tree.unary operator.spelling t) := by
  intro c stops
  have behind : Stops l tokens c.kind := by
    rw [stopsCons filled] at stops
    simpa only [firstLevel,form] using stops
  rw [levelSign form,if_pos (backKind.trans kind),backSymbol kind,operand.read behind,resume,form]
  rfl

theorem resumesBase (only : Resumes .primary tokens t) : Resumes .power tokens t := by
  intro c stops
  have plain : c.kind ≠ .symbol .starStar := stops.1 _ (by decide)
  rw [levelPower,only.read (stopsTighter (by decide) stops)]
  exact if_neg plain

theorem resumesPower {before sign after base exponent} (kind : sign.kind = .symbol .starStar)
    (filled : after ≠ []) (first : Resumes .primary before base)
    (last : Resumes .factor after exponent) :
    Resumes .power (before ++ sign :: after)
      (Tree.binary Symbol.starStar.spelling base exponent) := by
  intro c stops
  have apart : Stops .primary before (c.back (sign :: after)).kind := by
    rw [backKind,kind]
    exact stopsAt (by decide) (by decide)
  have behind : Stops .factor after c.kind := by
    rw [List.append_cons,stopsBehind filled] at stops
    exact stops
  rw [backAppend,levelPower,first.read apart]
  simp only [Reply.andThen]
  rw [if_pos (backKind.trans kind),backSymbol kind,last.read behind]
  rfl

theorem resumesPrimary (h : ∀ c : Cursor, Stops .primary tokens c.kind →
    (c.back tokens).primary = ⟨.ok t,c⟩) : Resumes .primary tokens t := by
  intro c stops
  rw [levelPrimary,h c stops]
  rfl

theorem resumesLeaf (more : token.kind ≠ .finish) (leaf : ∀ c : Cursor,
    (c.back [token]).primary = ⟨.ok t,(c.back [token]).advance⟩) : Resumes .primary [token] t :=
  resumesPrimary (fun c _ => by rw [leaf,backAdvance more,backNil])

theorem resumesName (kind : token.kind = .name) :
    Resumes .primary [token] (Tree.identifier token.payload) := by
  refine resumesPrimary (fun c stops => ?_)
  have plain : c.kind ≠ .symbol .openParen := fun paren => stops.2 paren token rfl kind
  rw [primary,backKind,kind]
  simp only [backAdvance (by simp [kind] : token.kind ≠ .finish)]
  exact if_neg plain

theorem resumesParen {opening closing} (opens : opening.kind = .symbol .openParen)
    (inner : Resumes .disjunction tokens t) (closes : closing.kind = .symbol .closeParen) :
    Resumes .primary (opening :: tokens ++ [closing]) (Tree.expression t) := by
  refine resumesPrimary (fun c _ => ?_)
  have stops : Stops .disjunction tokens (c.back [closing]).kind := by
    rw [backKind,closes]
    exact stopsUnlessJoint (by decide) (by decide)
  rw [List.cons_append,primary,backKind,opens]
  simp only [backSymbol opens,backAppend,expression,inner.read stops]
  simp only [Reply.map,Except.map,Reply.andThen,backExpect closes (by simp),backNil]

theorem resumesCall {callee opening closing : Token} {inner} (named : callee.kind = .name)
    (opens : opening.kind = .symbol .openParen) (closes : closing.kind = .symbol .closeParen)
    (read : ∀ c : Cursor, c.kind = .symbol .closeParen →
      (c.back tokens).arguments = ⟨.ok inner,c⟩) :
    Resumes .primary (callee :: opening :: tokens ++ [closing])
      (Tree.call callee.payload inner) := by
  refine resumesPrimary (fun c _ => ?_)
  rw [List.cons_append,primary,backKind,named]
  simp only [backAdvance (by simp [named] : callee.kind ≠ .finish),List.cons_append]
  rw [if_pos (backKind.trans opens),backSymbol opens,backAppend,read _ (backKind.trans closes)]
  simp only [Reply.map,Except.map,Reply.andThen,backExpect closes (by simp),backNil,backPayload]

theorem expressionRead (h : Resumes .disjunction tokens t)
    (stops : Stops .disjunction tokens c.kind) :
    (c.back tokens).expression = ⟨.ok (Tree.expression t),c⟩ := by
  rw [expression,h.read stops]
  rfl

theorem argumentsFilled (opening : ∃ token others, tokens = token :: others ∧
    Level.disjunction.opens token.kind) : (c.back tokens).arguments = (c.back tokens).argumentList := by
  obtain ⟨token,others,rfl,opens⟩ := opening
  rw [argumentsStep,if_neg]
  intro (closes : token.kind = _)
  rw [closes] at opens
  contradiction

theorem argumentListOfArguments {d : Cursor} {u us} (h : c.arguments = ⟨.ok (u :: us),d⟩) :
    c.argumentList = ⟨.ok (u :: us),d⟩ := by
  rw [argumentsStep] at h
  split at h
  · simp at h
  · exact h

mutual
theorem operandResumes {l tokens t} : Operand l tokens t → Resumes l tokens t
  | .tighter form only => resumesTighter form (operandResumes only)
  | .chain form member kind first last =>
    resumesChain form member kind (operandFilled last) (operandResumes first) (operandResumes last)
  | .unsigned form only => resumesUnsigned form (operandOpens only) (operandResumes only)
  | .signed form kind operand =>
    resumesSigned form kind (operandFilled operand) (operandResumes operand)
  | .base only => resumesBase (operandResumes only)
  | .power kind first last =>
    resumesPower kind (operandFilled last) (operandResumes first) (operandResumes last)
  | .integer kind | .string kind | .truth kind | .falsity kind => by
    refine resumesLeaf (by simp [kind]) (fun c => ?_)
    simp only [primary,backKind,kind,backPayload]
  | .name kind => resumesName kind
  | .paren opens inner closes => resumesParen opens (operandResumes inner) closes
  | .call named opens inner closes => resumesCall named opens closes (fun _ => argumentsRead inner)
theorem argumentsRead {tokens ts} : Arguments tokens ts →
    ∀ {c : Cursor}, c.kind = .symbol .closeParen → (c.back tokens).arguments = ⟨.ok ts,c⟩
  | .none, c, closes => by rw [argumentsStep,backNil,if_pos closes]
  | .one only, c, closes => by
    have stops : Stops .disjunction tokens c.kind := by
      rw [closes]
      exact stopsUnlessJoint (by decide) (by decide)
    rw [argumentsFilled (operandOpens only),argumentListStep,expressionRead (operandResumes only) stops]
    exact if_neg (by simp [closes])
  | .more first kind rest, c, closes => by
    obtain ⟨token,others,same,opens⟩ := operandOpens first
    rw [argumentsFilled ⟨token,_,congrArg (· ++ _) same,opens⟩,argumentListStep,backAppend,
      expressionRead (operandResumes first) (by rw [backKind,kind]; exact stopsUnlessJoint (by decide) (by decide))]
    simp only [Reply.andThen]
    rw [if_pos (backKind.trans kind),backSymbol kind,argumentListOfArguments (argumentsRead rest closes)]
    rfl
end

theorem operandRead (o : Operand l tokens t) (stops : Stops l tokens c.kind) :
    (c.back tokens).level l = ⟨.ok t,c⟩ := (operandResumes o).read stops

end JutsuSyntax.Cursor
