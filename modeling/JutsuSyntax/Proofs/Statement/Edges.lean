import JutsuSyntax.Proofs.Expression.Edges
import JutsuSyntax.Statement.Reading

/-! The first and the last tokens of statements and bodies, and what may stand behind them. -/
namespace JutsuSyntax.Grammar
open Token (Symbol)

variable {tokens others : List Token} {t : Tree} {ts : List Tree} {kind : Token.Kind}

def Apart (statement : List Token) (kind : Token.Kind) : Prop :=
  ∀ last ∈ statement.getLast?,
    ¬ (kind = .symbol .minus ∧ last.kind ≠ .symbol .closeBrace) ∧
    ¬ (kind = .symbol .openParen ∧ last.kind = .name)

theorem separateCons {token : Token} : Separate tokens (token :: others) ↔ Apart tokens token.kind := by
  simp [Separate,Apart]

theorem separateNil : Separate tokens [] := by
  simp [Separate]

theorem apartBrace (last : ∃ front closing, tokens = front ++ [closing] ∧
    closing.kind = .symbol .closeBrace) : Apart tokens kind := by
  obtain ⟨front,closing,rfl,closes⟩ := last
  simp [Apart,closes]

theorem apartOther (minus : kind ≠ .symbol .minus) (paren : kind ≠ .symbol .openParen) :
    Apart tokens kind := by
  simp [Apart,minus,paren]

theorem apartCons {token : Token} (filled : tokens ≠ []) :
    Apart (token :: tokens) kind ↔ Apart tokens kind := by
  obtain ⟨first,rest,rfl⟩ := List.exists_cons_of_ne_nil filled
  rw [Apart,List.getLast?_cons_cons,Apart]

theorem apartOfStops (stops : Stops .disjunction tokens kind) : Apart tokens kind :=
  fun last member => ⟨fun h => stops.1 .minus (by decide) h.1,fun h => stops.2 h.1 last member h.2⟩

theorem stopsOfApart (o : Operand .disjunction tokens t) (apart : Apart tokens kind)
    (follows : kind = .newline ∨ kind = .finish ∨ kind.followsInBody) :
    Stops .disjunction tokens kind := by
  obtain ⟨front,last,rfl⟩ := (List.eq_nil_or_concat tokens).resolve_left (operandFilled o)
  have inside := operandVocabulary o last (by simp)
  have rule := apart last (by simp)
  refine ⟨?_,fun paren x member => ?_⟩
  · intro s member given
    obtain rfl := given
    have minus : s = .minus := by
      revert member follows
      cases s <;> decide
    exact rule.1 ⟨congrArg _ minus,(expressiveOnly inside).2.2.1⟩
  · cases (by simpa using member : last = x)
    exact fun name => rule.2 ⟨paren,name⟩

theorem opensFollows (h : Level.disjunction.opens kind) :
    kind.followsInBody ∧ kind ≠ .symbol .closeBrace := by
  revert h
  cases kind with
  | symbol s => cases s <;> decide
  | _ => decide

theorem statementOpens (h : Statement tokens t) : ∃ token others, tokens = token :: others ∧
    token.kind.followsInBody ∧ token.kind ≠ .symbol .closeBrace := by
  cases h with
  | expression only =>
    obtain ⟨token,others,rfl,opens⟩ := operandOpens only
    exact ⟨token,others,rfl,opensFollows opens⟩
  | assignment named | augmented named => exact ⟨_,_,rfl,by rw [named]; decide⟩
  | returned kind | print kind | conditional kind | definition kind =>
    exact ⟨_,_,rfl,by rw [kind]; decide⟩

theorem statementFilled (h : Statement tokens t) : tokens ≠ [] := by
  obtain ⟨token,others,rfl,_⟩ := statementOpens h
  exact List.cons_ne_nil _ _

theorem bodyOpens (h : Body tokens ts) : ∃ opening rest, tokens = opening :: rest ∧
    opening.kind = .symbol .openBrace := by
  cases h with
  | braces opens inner closes => exact ⟨_,_,rfl,opens⟩

theorem bodyCloses (h : Body tokens ts) : ∃ front closing, tokens = front ++ [closing] ∧
    closing.kind = .symbol .closeBrace := by
  cases h with
  | braces opens inner closes => exact ⟨_,_,rfl,closes⟩

def occurs : Token.Kind → Bool
  | .finish => false
  | .symbol s => s ∉ [.openBracket,.closeBracket,.colon,.dot,.elifWord,.elseWord]
  | _ => true

theorem expressiveOccurs (h : expressive kind) : occurs kind := by
  revert h
  cases kind with
  | symbol s => cases s <;> decide
  | _ => decide

theorem operandOccurs {l} (o : Operand l tokens t) : ∀ token ∈ tokens, occurs token.kind :=
  fun token member => expressiveOccurs (operandVocabulary o token member)

theorem parametersOccur {names} (h : Parameters tokens names) :
    ∀ token ∈ tokens, occurs token.kind := by
  induction h with
  | none => simp
  | one kind => simp +decide [kind]
  | more kind separator rest ih => simpa +decide [kind,separator] using ih

theorem augmentsOccurs {s operator : Symbol} (h : s.augments = some operator) :
    occurs (.symbol s) := by
  cases s <;> first | contradiction | rfl

mutual
theorem statementOccurs {tokens t} : Statement tokens t → ∀ token ∈ tokens, occurs token.kind
  | .expression only => operandOccurs only
  | .assignment named kind value => by
    simpa +decide [named,kind] using operandOccurs value
  | .augmented named kind applies value => by
    have sign : occurs (.symbol _) := augmentsOccurs applies
    simpa +decide [named,kind,sign] using operandOccurs value
  | .returned kind value | .print kind value => by
    simpa +decide [kind] using operandOccurs value
  | .conditional kind condition body => by
    have both := And.intro (operandOccurs condition) (bodyOccurs body)
    simpa +decide [kind,or_imp,forall_and] using both
  | .definition kind named opens parameters closes body => by
    have both := And.intro (parametersOccur parameters) (bodyOccurs body)
    simpa +decide [kind,named,opens,closes,or_imp,forall_and] using both
theorem bodyOccurs {tokens ts} : Body tokens ts → ∀ token ∈ tokens, occurs token.kind
  | .braces opens inner closes => by
    simpa +decide [opens,closes,or_imp,forall_and] using statementsOccur inner
theorem statementsOccur {tokens ts} : Statements tokens ts → ∀ token ∈ tokens, occurs token.kind
  | .none => nofun
  | .blank kind rest => by simpa +decide [kind] using statementsOccur rest
  | .more first _ rest => by
    simpa [or_imp,forall_and] using And.intro (statementOccurs first) (statementsOccur rest)
end

theorem linesOccur {ts} (h : Lines tokens ts) : ∀ token ∈ tokens, occurs token.kind := by
  induction h with
  | none => nofun
  | last only => exact statementOccurs only
  | blank kind rest ih => simpa +decide [kind] using ih
  | line first kind rest ih =>
    simpa +decide [kind,or_imp,forall_and] using And.intro (statementOccurs first) ih

theorem linesUnended {ts} (h : Lines tokens ts) : ∀ token ∈ tokens, token.kind ≠ .finish := by
  intro token member ended
  have := linesOccur h token member
  rw [ended] at this
  contradiction

end JutsuSyntax.Grammar
