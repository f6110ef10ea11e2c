import JutsuSyntax.Grammar

/-! The tokens that occur in expressions, those that may begin one, and those that may stand
behind one without going on with it. -/
namespace JutsuSyntax
open Token (Symbol)

namespace Level

def all : List Level :=
  [disjunction,conjunction,inversion,comparison,sum,term,factor,power,primary]

def Form.joints : Form → List Symbol
  | .chain operators _ => operators
  | .power => [.starStar]
  | _ => []

def joints (l : Level) : List Symbol :=
  (all.filter (fun k => l.rank ≤ k.rank)).flatMap (fun k => k.form.joints)

theorem jointsChain {l next : Level} {operators} (h : l.form = .chain operators next) :
    l.joints = operators ++ next.joints := by
  cases l <;> cases h <;> rfl

theorem jointsSign {l next : Level} {operator} (h : l.form = .sign operator next) :
    l.joints = next.joints := by
  cases l <;> cases h <;> rfl

theorem jointsIncluded (l : Level) : ∀ s ∈ l.joints, s ∈ disjunction.joints := by
  cases l <;> decide

theorem chainApart {l next : Level} {operators} (h : l.form = .chain operators next) :
    ∀ s ∈ operators, s ∉ next.joints := by
  cases l <;> cases h <;> decide

def opens (l : Level) : Token.Kind → Bool
  | .integer | .string | .name => true
  | .symbol s => s ∈ [.trueWord,.falseWord,.openParen] ||
      all.any (fun k => l.rank ≤ k.rank && match k.form with
        | .sign operator _ => s == operator
        | _ => false)
  | _ => false

theorem opensLooser {l next : Level} (h : l.rank ≤ next.rank) {kind} (opening : next.opens kind) :
    l.opens kind := by
  cases kind with
  | symbol s =>
    simp only [opens,Bool.or_eq_true,List.any_eq_true,Bool.and_eq_true,decide_eq_true_eq] at *
    exact opening.imp_right
      (fun ⟨k,member,above,sign⟩ => ⟨k,member,Nat.le_trans h above,sign⟩)
  | _ => exact opening

theorem signOpens {l next : Level} {operator} (h : l.form = .sign operator next) :
    l.opens (.symbol operator) ∧ next.opens (.symbol operator) = false := by
  cases l <;> cases h <;> decide

end Level

namespace Grammar
variable {l next : Level} {tokens others : List Token} {t : Tree}

def expressive : Token.Kind → Bool
  | .integer | .string | .name => true
  | .symbol s => s ∈ [.trueWord,.falseWord,.openParen,.closeParen,.comma,.bang] ++
      Level.disjunction.joints
  | _ => false

theorem jointExpressive {s : Symbol} (member : s ∈ l.joints) : expressive (.symbol s) := by
  simp only [expressive,decide_eq_true_eq]
  exact List.mem_append_right _ (l.jointsIncluded s member)

theorem signExpressive {operator} (h : l.form = .sign operator next) :
    expressive (.symbol operator) := by
  cases l <;> cases h <;> decide

theorem expressiveOnly {kind : Token.Kind} (h : expressive kind) :
    kind ≠ .finish ∧ kind ≠ .newline ∧ kind ≠ .symbol .closeBrace ∧ kind ≠ .symbol .assign ∧
      ∀ s : Symbol, s.augments.isSome → kind ≠ .symbol s := by
  refine ⟨?_,?_,?_,?_,?_⟩
  · intro given
    obtain rfl := given
    contradiction
  · intro given
    obtain rfl := given
    contradiction
  · intro given
    obtain rfl := given
    revert h
    decide
  · intro given
    obtain rfl := given
    revert h
    decide
  · intro s sign given
    obtain rfl := given
    cases s <;> contradiction

theorem operandOpens {l tokens t} : Operand l tokens t →
    ∃ token others, tokens = token :: others ∧ l.opens token.kind
  | .tighter form only => by
    obtain ⟨token,others,rfl,opening⟩ := operandOpens only
    exact ⟨token,others,rfl,Level.opensLooser (Nat.le_of_lt (Level.rankChain form)) opening⟩
  | .chain _ _ _ first _ => by
    obtain ⟨token,others,rfl,opening⟩ := operandOpens first
    exact ⟨token,_,rfl,opening⟩
  | .unsigned form only => by
    obtain ⟨token,others,rfl,opening⟩ := operandOpens only
    exact ⟨token,others,rfl,Level.opensLooser (Nat.le_of_lt (Level.rankSign form)) opening⟩
  | .signed form kind _ => ⟨_,_,rfl,kind ▸ (Level.signOpens form).1⟩
  | .base only => by
    obtain ⟨token,others,rfl,opening⟩ := operandOpens only
    exact ⟨token,others,rfl,Level.opensLooser (by decide) opening⟩
  | .power _ first _ => by
    obtain ⟨token,others,rfl,opening⟩ := operandOpens first
    exact ⟨token,_,rfl,Level.opensLooser (by decide) opening⟩
  | .integer kind | .string kind | .name kind | .truth kind | .falsity kind =>
    ⟨_,_,rfl,by rw [kind]; rfl⟩
  | .paren opens _ _ => ⟨_,_,rfl,opens ▸ rfl⟩
  | .call named _ _ _ => ⟨_,_,rfl,named ▸ rfl⟩

theorem operandFilled (o : Operand l tokens t) : tokens ≠ [] := by
  obtain ⟨token,others,rfl,_⟩ := operandOpens o
  exact List.cons_ne_nil _ _

mutual
theorem operandVocabulary {l tokens t} : Operand l tokens t →
    ∀ token ∈ tokens, expressive token.kind
  | .tighter _ only => operandVocabulary only
  | .chain form member kind first last => by
    have joint : expressive (.symbol _) :=
      jointExpressive (Level.jointsChain form ▸ List.mem_append_left _ member)
    simpa [kind,joint,or_imp,forall_and] using ⟨operandVocabulary first,operandVocabulary last⟩
  | .unsigned _ only => operandVocabulary only
  | .signed form kind operand => by
    simpa [kind,signExpressive form] using operandVocabulary operand
  | .base only => operandVocabulary only
  | .power kind first last => by
    have joint : expressive (.symbol .starStar) := by decide
    simpa [kind,joint,or_imp,forall_and] using ⟨operandVocabulary first,operandVocabulary last⟩
  | .integer kind | .string kind | .name kind | .truth kind | .falsity kind => by
    simp [kind]
    decide
  | .paren opens inner closes => by
    have marks : expressive (.symbol .openParen) ∧ expressive (.symbol .closeParen) := by decide
    simpa [opens,closes,marks,or_imp,forall_and] using operandVocabulary inner
  | .call named opens inner closes => by
    have marks : expressive .name ∧ expressive (.symbol .openParen) ∧
        expressive (.symbol .closeParen) := by decide
    simpa [named,opens,closes,marks,or_imp,forall_and] using argumentsVocabulary inner
theorem argumentsVocabulary {tokens ts} : Arguments tokens ts →
    ∀ token ∈ tokens, expressive token.kind
  | .none => nofun
  | .one only => operandVocabulary only
  | .more first kind rest => by
    have mark : expressive (.symbol .comma) := by decide
    simpa [kind,mark,or_imp,forall_and] using ⟨operandVocabulary first,argumentsVocabulary rest⟩
end

/-- A token of this kind does not go on with an expression of the level: it is no operator that
could join it, and it does not make a call of a name at its end. -/
def Stops (l : Level) (tokens : List Token) (kind : Token.Kind) : Prop :=
  (∀ s ∈ l.joints, kind ≠ .symbol s) ∧
    (kind = .symbol .openParen → ∀ last ∈ tokens.getLast?, last.kind ≠ .name)

theorem stopsTighter {kind} (h : ∀ s ∈ next.joints, s ∈ l.joints) (stops : Stops l tokens kind) :
    Stops next tokens kind :=
  ⟨fun s member => stops.1 s (h s member),stops.2⟩

theorem stopsBehind {kind} (filled : others ≠ []) :
    Stops l (tokens ++ others) kind ↔ Stops l others kind := by
  have last : (tokens ++ others).getLast? = others.getLast? := by
    rw [List.getLast?_append,List.getLast?_eq_some_getLast filled]
    rfl
  rw [Stops,Stops,last]

theorem stopsCons {kind} {token : Token} (filled : others ≠ []) :
    Stops l (token :: others) kind ↔ Stops l others kind := by
  rw [← List.singleton_append,stopsBehind filled]

theorem stopsAt {s : Symbol} (other : s ∉ l.joints) (paren : s ≠ .openParen) :
    Stops l tokens (.symbol s) := by
  refine ⟨fun sign member same => other ?_,fun same => ?_⟩
  · cases same
    exact member
  · cases same
    contradiction

theorem stopsUnlessJoint {s : Symbol} (other : s ∉ Level.disjunction.joints) (paren : s ≠ .openParen) :
    Stops l tokens (.symbol s) :=
  stopsAt (mt (l.jointsIncluded s) other) paren

theorem stopsClosed {kind} {closing : Token} (closes : closing.kind ≠ .name) :
    Stops .primary (tokens ++ [closing]) kind := by
  refine ⟨fun s member => absurd member ?_,fun _ last member => ?_⟩
  · rw [show Level.primary.joints = [] from rfl]
    exact List.not_mem_nil
  · cases (by simpa using member : closing = last)
    exact closes

end Grammar
end JutsuSyntax
