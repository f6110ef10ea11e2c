import JutsuSyntax.Proofs.Token.Tiling
import Mathlib.Data.List.Perm.Subperm
import Mathlib.Order.Bounds.Basic

/-! The scanner's count of open brackets in closed form. The count stops at zero, so it is how far the
balance of the brackets lies above the least it has been; and it is zero where every opening bracket has
a closing one of its own behind it, of whatever kind. -/
namespace JutsuSyntax

def Token.opens (token : Token) : Bool :=
  match token.kind with
  | .symbol s => s.opens
  | _ => false

def Token.closes (token : Token) : Bool :=
  match token.kind with
  | .symbol s => s.closes
  | _ => false

def balance (tokens : List Token) : Int := tokens.countP Token.opens - tokens.countP Token.closes

def balances (tokens : List Token) : Set Int := {c | ∃ k ≤ tokens.length, c = balance (tokens.take k)}

def lowest : List Token → Int
  | [] => 0
  | token :: tokens => min 0 (balance [token] + lowest tokens)

variable {token : Token} {tokens : List Token} {depth depth' start : Nat} {closer : Nat → Nat}

inductive Turns (token : Token) : Prop where
  | opening (opens : token.opens = true) (closes : token.closes = false) (one : balance [token] = 1)
      (past : ∀ depth, token.depthPast depth = depth + 1)
  | closing (opens : token.opens = false) (closes : token.closes = true) (one : balance [token] = -1)
      (past : ∀ depth, token.depthPast depth = depth - 1)
  | neither (opens : token.opens = false) (closes : token.closes = false) (none : balance [token] = 0)
      (past : ∀ depth, token.depthPast depth = depth)

theorem opensApart (opens : token.opens) : token.closes = false := by
  have apart : ∀ s ∈ Token.Symbol.all, s.opens → s.closes = false := by decide
  obtain ⟨kind,lexeme,place⟩ := token
  cases kind with
  | symbol s => exact apart s (Token.Symbol.memAll s) opens
  | _ => rfl

theorem depthPastTurned (token : Token) (depth : Nat) : token.depthPast depth =
    if token.opens then depth + 1 else if token.closes then depth - 1 else depth := by
  obtain ⟨kind,lexeme,place⟩ := token
  cases kind <;> rfl

theorem tokenTurns (token : Token) : Turns token := by
  have past := depthPastTurned token
  cases opens : token.opens with
  | true =>
    have closes := opensApart opens
    have one : balance [token] = 1 := by simp [balance,opens,closes]
    exact .opening opens closes one (by simpa [opens] using past)
  | false =>
    cases closes : token.closes with
    | true =>
      have one : balance [token] = -1 := by simp [balance,opens,closes]
      exact .closing opens closes one (by simpa [opens,closes] using past)
    | false =>
      have none : balance [token] = 0 := by simp [balance,opens,closes]
      exact .neither opens closes none (by simpa [opens,closes] using past)

theorem balanceAppend (front back : List Token) : balance (front ++ back) = balance front + balance back := by
  simp only [balance,List.countP_append]
  omega

theorem balanceCons (token : Token) (tokens : List Token) :
    balance (token :: tokens) = balance [token] + balance tokens := balanceAppend [token] tokens

theorem lowestNever (tokens : List Token) : lowest tokens ≤ 0 := by
  cases tokens with
  | nil => exact Int.le_refl 0
  | cons token tokens => exact Int.min_le_left _ _

theorem lowestLeast (tokens : List Token) : IsLeast (balances tokens) (lowest tokens) := by
  induction tokens with
  | nil =>
    refine ⟨⟨0,Nat.le_refl _,rfl⟩,?_⟩
    rintro _ ⟨k,_,rfl⟩
    rw [List.take_nil]
    exact Int.le_refl 0
  | cons token tokens ih =>
    obtain ⟨⟨k,within,reached⟩,least⟩ := ih
    constructor
    · rcases Int.le_total 0 (balance [token] + lowest tokens) with above | below
      · exact ⟨0,Nat.zero_le _,Int.min_eq_left above⟩
      · refine ⟨k + 1,Nat.succ_le_succ within,?_⟩
        rw [List.take_succ_cons,balanceCons token (tokens.take k),← reached]
        exact Int.min_eq_right below
    · rintro _ ⟨k,within,rfl⟩
      cases k with
      | zero => exact Int.min_le_left _ _
      | succ k =>
        have later := least ⟨k,Nat.le_of_succ_le_succ within,rfl⟩
        rw [List.take_succ_cons,balanceCons token (tokens.take k),lowest]
        omega

theorem depthDistance (tokens : List Token) (depth : Nat) :
    ((tokens.foldl Token.depthPast depth : Nat) : Int) =
      balance tokens - min (-(depth : Int)) (lowest tokens) := by
  induction tokens generalizing depth with
  | nil =>
    simp only [List.foldl_nil,lowest,balance,List.countP_nil]
    omega
  | cons token tokens ih =>
    have := lowestNever tokens
    rw [List.foldl_cons,ih,balanceCons token tokens,lowest]
    cases tokenTurns token with
    | opening _ _ one past | closing _ _ one past | neither _ _ one past =>
      rw [past,one]
      omega

theorem noneOpen : openBrackets tokens = 0 ↔ IsLeast (balances tokens) (balance tokens) := by
  have distance := depthDistance tokens 0
  have := lowestNever tokens
  have least := lowestLeast tokens
  constructor
  · intro closed
    have same : balance tokens = lowest tokens := by
      rw [openBrackets] at closed
      omega
    rwa [same]
  · intro reached
    have same := reached.unique least
    rw [openBrackets]
    omega

theorem leastDrops : IsLeast (balances tokens) (balance tokens) ↔ ∀ k, balance (tokens.drop k) ≤ 0 := by
  have halves : ∀ k, balance (tokens.take k) + balance (tokens.drop k) = balance tokens := by
    intro k
    rw [← balanceAppend,List.take_append_drop]
  constructor
  · intro least k
    rcases Nat.le_total k tokens.length with within | beyond
    · have := least.2 ⟨k,within,rfl⟩
      have := halves k
      omega
    · rw [List.drop_of_length_le beyond]
      exact Int.le_refl 0
  · intro falls
    refine ⟨⟨tokens.length,Nat.le_refl _,by rw [List.take_length]⟩,?_⟩
    rintro _ ⟨k,_,rfl⟩
    have := halves k
    have := falls k
    omega

theorem numbersSplit {p : Token → Bool} {i : Nat} : i ∈ (token :: tokens).findIdxs p start ↔
    (i = start ∧ p token) ∨ i ∈ tokens.findIdxs p (start + 1) := by
  rw [List.findIdxs_cons]
  split <;> simp_all

theorem numbersLater (token : Token) (tokens : List Token) (p : Token → Bool) (start : Nat) :
    (tokens.findIdxs p (start + 1)).Sublist ((token :: tokens).findIdxs p start) := by
  rw [List.findIdxs_cons]
  split
  · exact List.sublist_cons_self _ _
  · exact List.Sublist.refl _

/-- Every opening bracket has a closing one behind it, of whatever kind, that closes no other. The
first of the tokens has the number `start`. -/
structure Closing (start : Nat) (tokens : List Token) (closer : Nat → Nat) : Prop where
  behind : ∀ i ∈ tokens.findIdxs Token.opens start,
    i < closer i ∧ closer i ∈ tokens.findIdxs Token.closes start
  apart : ((tokens.findIdxs Token.opens start).map closer).Nodup

theorem balanceNumbers (tokens : List Token) (closer : Nat → Nat) (start : Nat) :
    balance tokens = ((tokens.findIdxs Token.opens start).map closer).length -
      (tokens.findIdxs Token.closes start).length := by
  rw [List.length_map,List.length_findIdxs,List.length_findIdxs]
  rfl

theorem spareCloser (more : balance tokens < 0) (closer : Nat → Nat) (start : Nat) :
    ∃ number ∈ tokens.findIdxs Token.closes start,
      number ∉ (tokens.findIdxs Token.opens start).map closer := by
  by_contra none
  push Not at none
  have fewer := (List.subperm_of_subset List.nodup_findIdxs none).length_le
  rw [balanceNumbers tokens closer start] at more
  omega

namespace Closing

theorem falls (h : Closing start tokens closer) : balance tokens ≤ 0 := by
  have within : (tokens.findIdxs Token.opens start).map closer ⊆ tokens.findIdxs Token.closes start := by
    intro number member
    obtain ⟨i,opening,rfl⟩ := List.mem_map.mp member
    exact (h.behind i opening).2
  have fewer := (List.subperm_of_subset h.apart within).length_le
  rw [balanceNumbers tokens closer start]
  omega

theorem tail (h : Closing start (token :: tokens) closer) : Closing (start + 1) tokens closer := by
  have later := numbersLater token tokens Token.opens start
  refine ⟨fun i opening => ?_,(later.map closer).nodup h.apart⟩
  obtain ⟨behind,closing⟩ := h.behind i (later.subset opening)
  have first := List.ge_of_mem_findIdxs i opening
  exact ⟨behind,(numbersSplit.mp closing).resolve_left (fun own => by omega)⟩

theorem pass (h : Closing (start + 1) tokens closer) (plain : token.opens = false) :
    Closing start (token :: tokens) closer := by
  have later := numbersLater token tokens Token.closes start
  have same : (token :: tokens).findIdxs Token.opens start = tokens.findIdxs Token.opens (start + 1) := by
    rw [List.findIdxs_cons,plain]
    rfl
  constructor
  · intro i opening
    obtain ⟨behind,closing⟩ := h.behind i (same ▸ opening)
    exact ⟨behind,later.subset closing⟩
  · rw [same]
    exact h.apart

theorem pair (h : Closing (start + 1) tokens closer) (opens : token.opens)
    (more : balance (token :: tokens) ≤ 0) : ∃ closer, Closing start (token :: tokens) closer := by
  have one : balance [token] = 1 := by simp [balance,opens,opensApart opens]
  have fewer : balance tokens < 0 := by
    rw [balanceCons token tokens] at more
    omega
  obtain ⟨number,closing,free⟩ := spareCloser fewer closer (start + 1)
  have later := numbersLater token tokens Token.closes start
  have whole : (token :: tokens).findIdxs Token.opens start =
      start :: tokens.findIdxs Token.opens (start + 1) := by rw [List.findIdxs_cons,if_pos opens]
  have kept : ∀ i ∈ tokens.findIdxs Token.opens (start + 1),
      Function.update closer start number i = closer i := by
    intro i opening
    have first := List.ge_of_mem_findIdxs i opening
    exact Function.update_of_ne (by omega) _ _
  refine ⟨Function.update closer start number,fun i opening => ?_,?_⟩
  · rw [whole] at opening
    rcases List.mem_cons.mp opening with rfl | inside
    · have first := List.ge_of_mem_findIdxs number closing
      rw [Function.update_self]
      exact ⟨by omega,later.subset closing⟩
    · obtain ⟨behind,closes⟩ := h.behind i inside
      rw [kept i inside]
      exact ⟨behind,later.subset closes⟩
  · rw [whole,List.map_cons,Function.update_self,List.map_congr_left kept]
    exact List.nodup_cons.mpr ⟨free,h.apart⟩

end Closing

theorem closingDrops : (∃ closer, Closing start tokens closer) ↔ ∀ k, balance (tokens.drop k) ≤ 0 := by
  constructor
  · rintro ⟨closer,h⟩ k
    induction tokens generalizing start k with
    | nil =>
      rw [List.drop_nil]
      exact Int.le_refl 0
    | cons token tokens ih =>
      cases k with
      | zero => exact h.falls
      | succ k => exact ih h.tail k
  · -- From the back: an opening bracket takes a closing one that no bracket behind it has taken.
    intro falls
    induction tokens generalizing start with
    | nil => exact ⟨id,nofun,.nil⟩
    | cons token tokens ih =>
      obtain ⟨closer,h⟩ := @ih (start + 1) (fun k => falls (k + 1))
      cases opens : token.opens with
      | true => exact h.pair opens (falls 0)
      | false => exact ⟨closer,h.pass opens⟩

theorem noneOpenClosing : openBrackets tokens = 0 ↔ ∃ closer, Closing 0 tokens closer := by
  rw [noneOpen,leastDrops,closingDrops]

theorem depthRises (fewer : depth ≤ depth') (tokens : List Token) :
    tokens.foldl Token.depthPast depth ≤ tokens.foldl Token.depthPast depth' := by
  induction tokens generalizing depth depth' with
  | nil => exact fewer
  | cons token tokens ih =>
    refine ih ?_
    cases tokenTurns token with
    | opening _ _ _ past | closing _ _ _ past | neither _ _ _ past =>
      rw [past,past]
      omega

theorem surplusCloses (closes : token.closes) (front back : List Token) :
    openBrackets (front ++ token :: back) ≤ openBrackets (front ++ back) := by
  rw [openBrackets,openBrackets,List.foldl_append,List.foldl_append,List.foldl_cons]
  refine depthRises ?_ back
  cases tokenTurns token with
  | closing _ _ _ past =>
    rw [past]
    omega
  | opening _ plain | neither _ plain =>
    rw [closes] at plain
    contradiction

end JutsuSyntax
