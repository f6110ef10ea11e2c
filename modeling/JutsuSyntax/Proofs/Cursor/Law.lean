import JutsuSyntax.Statement.Reading

/-! Properties of productions that are kept by every way of putting productions together. What has
such a property for the single tokens has it for all that is read of them. -/
namespace JutsuSyntax.Cursor

/-- The rules of a property of productions, each started at some cursor. Of the errors only those
are asked for that come up inside expressions and statements. -/
structure Law (holds : (α : Type) → (Cursor → Parsed α) → Cursor → Prop) : Prop where
  stay {α c} (value : α) : holds α (fun c => ⟨.ok value,c⟩) c
  refuse {α c} {f : Token → ParseError}
    (other : ∀ token found, f token ≠ .noAlternative .statement found) :
    holds α (fun c => ⟨.error (f c.current),c⟩) c
  expect {c} {kind : Token.Kind} (word : kind ≠ .finish) (other : kind ≠ .newline) :
    holds Token (Cursor.expect kind) c
  congr {α c} {p q : Cursor → Parsed α} (h : holds α q c)
    (agree : ∀ d : Cursor, d.kind = c.kind → d.payload = c.payload → p d = q d) : holds α p c
  pass {α c} {p q : Cursor → Parsed α} (more : c.kind ≠ .finish) (plain : c.kind ≠ .newline)
    (h : holds α q c.advance)
    (step : ∀ d : Cursor, d.kind = c.kind → d.payload = c.payload → p d = q d.advance) : holds α p c
  map {α β c} {p : Cursor → Parsed α} (h : holds α p c) (f : α → β) :
    holds β (fun c => (p c).map f) c
  andThen {α β c} {p : Cursor → Parsed α} {next : α → Cursor → Parsed β} (h : holds α p c)
    (go : ∀ value, (p c).result = .ok value → holds β (next value) (p c).after) :
    holds β (fun c => (p c).andThen next) c

namespace Law
variable {holds : (α : Type) → (Cursor → Parsed α) → Cursor → Prop} {α β : Type} {c : Cursor}
  {p q : Cursor → Parsed α} {s : Token.Symbol}

theorem passSymbol (law : Law holds) (kind : c.kind = .symbol s) (h : holds α q c.advance)
    (step : ∀ d : Cursor, d.kind = c.kind → d.payload = c.payload → p d = q d.advance) : holds α p c :=
  law.pass (by simp [kind]) (by simp [kind]) h step

theorem expectSymbol (law : Law holds) (s : Token.Symbol) : holds Token (Cursor.expect (.symbol s)) c :=
  law.expect (by simp) (by simp)

theorem closed (law : Law holds) (inner : holds α p c) (close : Token.Symbol) (f : α → β) :
    holds β (fun c => (p c).andThen (fun a d => (d.expect (.symbol close)).map (fun _ => f a))) c :=
  law.andThen inner (fun a _ => law.map (law.expectSymbol close) (fun _ => f a))

end Law

theorem reachLaw {reach : Cursor → Cursor → Prop} (refl : ∀ c, reach c c)
    (trans : ∀ {c d e}, reach c d → reach d e → reach c e)
    (advance : ∀ {c : Cursor}, c.kind ≠ .newline → reach c c.advance) :
    Law (fun _ p c => reach c (p c).after) where
  stay {_ c} _ := refl c
  refuse {_ c} _ _ := refl c
  expect {c kind} _ other := by
    rw [expect]
    split
    · rename_i same
      exact advance (same ▸ other)
    · exact refl c
  congr {_ c} _ _ h agree := by rwa [agree c rfl rfl]
  pass {_ c} _ _ _ plain h step := by
    rw [step c rfl rfl]
    exact trans (advance plain) h
  map h _ := h
  andThen {_ _ c p} next h go := by
    cases result : (p c).result with
    | error e => simpa [Reply.andThen,result] using h
    | ok value => simpa [Reply.andThen,result] using trans h (go value result)

section Commutes
variable {f : Cursor → Cursor} {c : Cursor}

def Commutes (f : Cursor → Cursor) (α : Type) (p : Cursor → Parsed α) (c : Cursor) : Prop :=
  p (f c) = ⟨(p c).result,f (p c).after⟩

structure KeepsFront (f : Cursor → Cursor) : Prop where
  current : ∀ c, (f c).current = c.current
  advance : ∀ {c}, c.kind ≠ .newline → (f c).advance = f c.advance

namespace KeepsFront

theorem kind (front : KeepsFront f) (c : Cursor) : (f c).kind = c.kind :=
  congrArg Token.kind (front.current c)

theorem payload (front : KeepsFront f) (c : Cursor) : (f c).payload = c.payload :=
  congrArg Token.payload (front.current c)

theorem commutes (front : KeepsFront f) : Law (Commutes f) where
  stay _ := rfl
  refuse _ := by
    rw [Commutes,front.current]
  expect {c kind} _ other := by
    rw [Commutes,expect,expect,front.kind,front.current]
    split
    · rename_i same
      rw [front.advance (same ▸ other)]
    · rfl
  congr {_ c} _ _ h agree := by
    rw [Commutes,agree c rfl rfl,agree (f c) (front.kind c) (front.payload c)]
    exact h
  pass {_ c} _ _ _ plain h step := by
    rw [Commutes,step c rfl rfl,step (f c) (front.kind c) (front.payload c),front.advance plain]
    exact h
  map h g := congrArg (Reply.map g) h
  andThen {_ _ c p} next h go := by
    change (p (f c)).andThen next = _
    rw [h]
    cases result : (p c).result with
    | error e => simp [Reply.andThen,result]
    | ok value => simpa [Reply.andThen,result,Commutes] using go value result

theorem skip (front : KeepsFront f) (advance : (f c).advance = f c.advance) {α : Type} {p : Cursor → Parsed α}
    (newline : c.kind = .newline) (skips : ∀ d : Cursor, d.kind = .newline → p d = p d.advance)
    (h : Commutes f α p c.advance) : Commutes f α p c := by
  rw [Commutes,skips c newline,skips _ ((front.kind c).trans newline),advance]
  exact h

end KeepsFront
end Commutes
end JutsuSyntax.Cursor
