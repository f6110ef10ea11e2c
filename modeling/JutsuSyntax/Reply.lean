/-! Answers of readers that keep their place, whether they succeed or fail. -/
namespace JutsuSyntax

instance exceptDecidable {ε α : Type} [DecidableEq ε] [DecidableEq α] : DecidableEq (Except ε α)
  | .ok a, .ok b => decidable_of_iff (a = b) ⟨congrArg _,Except.ok.inj⟩
  | .error e, .error f => decidable_of_iff (e = f) ⟨congrArg _,Except.error.inj⟩
  | .ok _, .error _ => isFalse (fun same => nomatch same)
  | .error _, .ok _ => isFalse (fun same => nomatch same)

structure Reply (ε σ α : Type) where
  result : Except ε α
  after : σ

namespace Reply
variable {ε σ α β : Type}

def map (f : α → β) (r : Reply ε σ α) : Reply ε σ β := ⟨r.result.map f,r.after⟩

def andThen (r : Reply ε σ α) (next : α → σ → Reply ε σ β) : Reply ε σ β :=
  match r.result with
  | .ok value => next value r.after
  | .error e => ⟨.error e,r.after⟩

theorem mapAndThen {γ : Type} (f : α → β) (r : Reply ε σ α) (next : β → σ → Reply ε σ γ) :
    (r.map f).andThen next = r.andThen (fun value => next (f value)) := by
  obtain ⟨result,after⟩ := r
  cases result <;> rfl

theorem andThenAndThen {γ : Type} (r : Reply ε σ α) (next : α → σ → Reply ε σ β) (last : β → σ → Reply ε σ γ) :
    (r.andThen next).andThen last = r.andThen (fun a state => (next a state).andThen last) := by
  obtain ⟨result,after⟩ := r
  cases result <;> rfl

theorem mapMap {γ : Type} (f : α → β) (g : β → γ) (r : Reply ε σ α) :
    (r.map f).map g = r.map (fun value => g (f value)) := by
  obtain ⟨result,after⟩ := r
  cases result <;> rfl

theorem mapOk {f : α → β} {r : Reply ε σ α} {b : β} {state : σ} (h : r.map f = ⟨.ok b,state⟩) :
    ∃ a, r = ⟨.ok a,state⟩ ∧ f a = b := by
  obtain ⟨result,after⟩ := r
  cases result with
  | error e => cases h
  | ok a =>
    cases h
    exact ⟨a,rfl,rfl⟩

theorem andThenOk {r : Reply ε σ α} {next : α → σ → Reply ε σ β} {b : β} {state : σ}
    (h : r.andThen next = ⟨.ok b,state⟩) : ∃ a middle, r = ⟨.ok a,middle⟩ ∧ next a middle = ⟨.ok b,state⟩ := by
  obtain ⟨result,after⟩ := r
  cases result with
  | error e => cases h
  | ok a => exact ⟨a,after,rfl,h⟩

theorem mapNil (r : Reply ε σ (List α)) : r.map ([] ++ ·) = r := by
  obtain ⟨result,after⟩ := r
  cases result <;> rfl

theorem mapAppend (r : Reply ε σ (List α)) (front more : List α) :
    (r.map (more ++ ·)).map (front ++ ·) = r.map (front ++ more ++ ·) := by
  simp only [mapMap,List.append_assoc]

def session (read : σ → Reply ε σ α) : Nat → σ → List (Except ε α)
  | 0, _ => []
  | calls + 1, state => (read state).result :: session read calls (read state).after

end Reply
end JutsuSyntax
