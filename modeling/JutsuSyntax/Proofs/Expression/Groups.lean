import JutsuSyntax.Proofs.Expression.Edges
import JutsuSyntax.Proofs.Program.Balance
import Mathlib.Order.WellFounded

/-! Parentheses at the end of an expression. The tokens between them are an expression by
themselves if their own brackets pair up; else the two parentheses may belong to other ones. -/
namespace JutsuSyntax.Grammar
open Token (Symbol)

variable {tokens front before after inner e : List Token} {sign opening closing : Token}

theorem Balanced.rises (balanced : Balanced (front ++ after)) (depth : Nat) :
    depth ≤ front.foldl Token.depthPast depth := by
  -- No two counts become one on the way, as they are apart again at the end.
  have back : Function.LeftInverse (fun d => after.foldl Token.depthPast d)
      (fun d => front.foldl Token.depthPast d) := by
    intro d
    have whole := balanced d
    rwa [List.foldl_append] at whole
  have step (token : Token) : Monotone (fun d => Token.depthPast d token) := by
    intro m n less
    simp only [Token.depthPast,Symbol.depthAfter]
    split
    · split
      · omega
      · split <;> omega
    · exact less
  have strict := (List.foldl_monotone step front).strictMono_of_injective back.injective
  exact strict.le_apply

theorem balancedOpen (opens : opening.kind = .symbol .openParen)
    (inner : ∀ depth, depth ≤ tokens.foldl Token.depthPast depth) : ¬ Balanced (front ++ opening :: tokens) := by
  intro balanced
  have count := balanced 0
  rw [List.foldl_append,List.foldl_cons,openingDepth opens rfl] at count
  have more := inner (front.foldl Token.depthPast 0 + 1)
  omega

theorem bracketlessOpens {token : Token} (plain : Bracketless token) : token.kind ≠ .symbol .openParen := by
  intro opens
  cases (plain _ opens).1

def Nameless (tokens : List Token) : Prop := ∀ last ∈ tokens.getLast?, last.kind ≠ .name

theorem namelessBehind (h : Nameless (before ++ sign :: after)) : Nameless after := by
  cases after with
  | nil => nofun
  | cons token after =>
    rw [Nameless,List.getLast?_append,List.getLast?_cons_cons] at h
    intro last member
    exact h last (by rw [member]; rfl)

theorem groupBehind (balanced : Balanced e) (opens : opening.kind = .symbol .openParen)
    (plain : Bracketless sign) (first : Balanced before) (filled : after ≠ [])
    (same : before ++ sign :: after = front ++ (opening :: e ++ [closing])) :
    ∃ others, front = before ++ sign :: others ∧ after = others ++ (opening :: e ++ [closing]) := by
  -- The group stands behind the operator, or it would begin in front of it and never be closed there.
  rcases List.append_eq_append_iff.mp same with ⟨others,rfl,rest⟩ | ⟨others,rfl,rest⟩
  · cases others with
    | nil =>
      obtain ⟨rfl,_⟩ := List.cons.inj rest
      exact absurd opens (bracketlessOpens plain)
    | cons token others =>
      obtain ⟨rfl,rfl⟩ := List.cons.inj rest
      exact ⟨others,rfl,rfl⟩
  · cases others with
    | nil =>
      obtain ⟨rfl,_⟩ := List.cons.inj rest
      exact absurd opens (bracketlessOpens plain)
    | cons token others =>
      obtain ⟨rfl,rest⟩ := List.cons.inj rest
      obtain ⟨behind,last,rfl⟩ := (List.eq_nil_or_concat after).resolve_left filled
      have rest : e ++ [closing] = others ++ sign :: behind ++ [last] := by simpa using rest
      obtain ⟨rfl,_⟩ := List.append_inj' rest rfl
      exact absurd first (balancedOpen opens balanced.rises)

theorem groupWithin (balanced : Balanced e) (opens : opening.kind = .symbol .openParen) {first last : Token}
    (inside : Balanced tokens) (same : first :: tokens ++ [last] = front ++ (opening :: e ++ [closing])) :
    front = [] ∧ first = opening ∧ tokens = e := by
  cases front with
  | nil =>
    obtain ⟨rfl,rest⟩ := List.cons.inj same
    exact ⟨rfl,rfl,(List.append_inj' rest rfl).1⟩
  | cons token front =>
    obtain ⟨rfl,rest⟩ := List.cons.inj same
    have rest : tokens ++ [last] = front ++ opening :: e ++ [closing] := by simpa using rest
    obtain ⟨rfl,_⟩ := List.append_inj' rest rfl
    exact absurd inside (balancedOpen opens (fun _ => (balanced _).ge))

theorem groupAlone {token : Token} (same : [token] = front ++ (opening :: e ++ [closing])) : False := by
  have length := congrArg List.length same
  simp at length
  omega

-- The induction is on the whole expression; the parentheses at its end are those at the end of its
-- last operand, until they are the outermost ones.
theorem groupInside {l tokens t} : Operand l tokens t → ∀ {front e : List Token} {opening closing : Token},
    Balanced e → opening.kind = .symbol .openParen → Nameless front →
    tokens = front ++ (opening :: e ++ [closing]) → ∃ r, Operand .disjunction e r
  | .tighter _ only, _, _, _, _, balanced, opens, free, same => groupInside only balanced opens free same
  | .unsigned _ only, _, _, _, _, balanced, opens, free, same => groupInside only balanced opens free same
  | .base only, _, _, _, _, balanced, opens, free, same => groupInside only balanced opens free same
  | .chain form member kind first last, _, _, _, _, balanced, opens, free, same => by
    have plain := bracketlessSymbol kind (jointPlain form member)
    obtain ⟨others,rfl,behind⟩ := groupBehind balanced opens plain (operandNested first).balanced
      (operandFilled last) same
    exact groupInside last balanced opens (namelessBehind free) behind
  | .power kind first last, _, _, _, _, balanced, opens, free, same => by
    have plain := bracketlessSymbol kind (by decide)
    obtain ⟨others,rfl,behind⟩ := groupBehind balanced opens plain (operandNested first).balanced
      (operandFilled last) same
    exact groupInside last balanced opens (namelessBehind free) behind
  | .signed form kind operand, front, _, _, _, balanced, opens, free, same => by
    cases front with
    | nil =>
      obtain ⟨rfl,_⟩ := List.cons.inj same
      exact absurd opens (bracketlessOpens (bracketlessSymbol kind (signPlain form)))
    | cons sign front =>
      obtain ⟨rfl,behind⟩ := List.cons.inj same
      exact groupInside operand balanced opens (@namelessBehind [] front _ free) behind
  | .integer _, _, _, _, _, _, _, _, same | .string _, _, _, _, _, _, _, _, same
  | .name _, _, _, _, _, _, _, _, same | .truth _, _, _, _, _, _, _, _, same
  | .falsity _, _, _, _, _, _, _, _, same => (groupAlone same).elim
  | .paren _ inner _, _, _, _, _, balanced, opens, _, same => by
    obtain ⟨_,_,rfl⟩ := groupWithin balanced opens (operandNested inner).balanced same
    exact ⟨_,inner⟩
  | .call named _ inner _, front, _, _, _, balanced, opens, free, same => by
    cases front with
    | nil =>
      obtain ⟨rfl,_⟩ := List.cons.inj same
      exact absurd opens (bracketlessOpens (bracketlessName named))
    | cons callee front =>
      obtain ⟨rfl,behind⟩ := List.cons.inj same
      obtain ⟨rfl,_⟩ := groupWithin balanced opens (argumentsNested inner).balanced behind
      exact absurd named (free _ rfl)

end JutsuSyntax.Grammar
