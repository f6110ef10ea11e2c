import JutsuSyntax.Cursor.Basic

/-! Productions that never step back. Their recursion ends because what is ahead gets shorter. -/
namespace JutsuSyntax.Cursor
variable {α β : Type} {m n : Nat} {c d : Cursor}

/-- A reply started at `c` that never has more tokens ahead than `c`, and after a success at
least `n` fewer. -/
def Consumes (n : Nat) (c : Cursor) (r : Parsed α) : Prop :=
  r.after.left ≤ c.left ∧ ∀ value, r.result = .ok value → r.after.left + n ≤ c.left

abbrev Consuming (n : Nat) (c : Cursor) (α : Type) := {r : Parsed α // Consumes n c r}

theorem expectConsumes {kind : Token.Kind} (word : kind ≠ .finish) (c : Cursor) :
    Consumes 1 c (c.expect kind) := by
  unfold expect
  split
  · rename_i same
    have := advanceShortens (same ▸ word : c.kind ≠ .finish)
    exact ⟨by simp; omega,fun _ _ => by simp; omega⟩
  · exact ⟨Nat.le_refl _,nofun⟩

theorem expectSymbol (s : Token.Symbol) (c : Cursor) : Consumes 1 c (c.expect (.symbol s)) :=
  expectConsumes (by simp) c

theorem expectName (c : Cursor) : Consumes 1 c (c.expect .name) := expectConsumes (by simp) c

theorem Consumes.loose {r : Parsed α} (h : Consumes n c r) : Consumes 0 c r :=
  ⟨h.1,fun _ _ => h.1⟩

theorem Consumes.map {r : Parsed α} (h : Consumes n c r) (f : α → β) : Consumes n c (r.map f) := by
  obtain ⟨result,after⟩ := r
  cases result with
  | error e => exact ⟨h.1,nofun⟩
  | ok value => exact ⟨h.1,fun _ _ => h.2 value rfl⟩

theorem Consumes.andThen {r : Parsed α} {next : α → Cursor → Parsed β} (h : Consumes m c r)
    (go : ∀ value, r.result = .ok value → Consumes n r.after (next value r.after)) :
    Consumes (m + n) c (r.andThen next) := by
  obtain ⟨result,after⟩ := r
  cases result with
  | error e => exact ⟨h.1,nofun⟩
  | ok value =>
    have first := h.2 value rfl
    obtain ⟨loose,strict⟩ := go value rfl
    simp only [Reply.andThen] at *
    exact ⟨by omega,fun b same => by have := strict b same; omega⟩

theorem Consumes.later {k : Nat} {r : Parsed α} (h : Consumes m d r) (behind : d.left + k ≤ c.left)
    (enough : n ≤ m + k) : Consumes n c r :=
  ⟨by have := h.1; omega,fun value same => by have := h.2 value same; omega⟩

namespace Consuming

def map (f : α → β) (r : Consuming n c α) : Consuming n c β := ⟨r.val.map f,r.property.map f⟩

def andThen (r : Consuming m c α)
    (next : α → (d : Cursor) → d.left + m ≤ c.left → Consuming n d β) : Consuming (m + n) c β :=
  match r with
  | ⟨⟨.error e,d⟩,h⟩ => ⟨⟨.error e,d⟩,h.1,nofun⟩
  | ⟨⟨.ok value,d⟩,h⟩ =>
    have behind := h.2 value rfl
    let last := next value d behind
    ⟨last.val,by have := last.property.1; simp at behind; omega,
      fun b same => by have := last.property.2 b same; simp at behind; omega⟩

def later {k : Nat} (r : Consuming m d α) (behind : d.left + k ≤ c.left) (enough : n ≤ m + k) :
    Consuming n c α := ⟨r.val,r.property.later behind enough⟩

def within (r : Consuming m d α) (behind : d.left ≤ c.left) : Consuming m c α :=
  ⟨r.val,r.property.later (k := 0) behind (Nat.le_refl m)⟩

def loose (r : Consuming m c α) : Consuming 0 c α := ⟨r.val,r.property.loose⟩

def of {r : Parsed α} (h : Consumes n c r) : Consuming n c α := ⟨r,h⟩

def expect (kind : Token.Kind) (word : kind ≠ .finish) (c : Cursor) : Consuming 1 c Token :=
  ⟨c.expect kind,expectConsumes word c⟩

theorem andThenVal {r : Consuming m c α}
    {next : α → (d : Cursor) → d.left + m ≤ c.left → Consuming n d β}
    {plain : α → Cursor → Parsed β} (same : ∀ value d behind, (next value d behind).val = plain value d) :
    (r.andThen next).val = r.val.andThen plain := by
  obtain ⟨⟨result,d⟩,h⟩ := r
  cases result with
  | error e => rfl
  | ok value => exact same value d _

end Consuming
end JutsuSyntax.Cursor
