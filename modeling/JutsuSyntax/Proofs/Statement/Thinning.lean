import JutsuSyntax.Proofs.Cursor.Outcome
import JutsuSyntax.Proofs.Statement.Commuting

/-! Runs of newlines made one newline each. A production keeps its result if the runs ahead of it
are thinned so; expressions and what is read before a body do not even pass a newline. -/
namespace JutsuSyntax

def Token.isNewline (token : Token) : Bool := token.kind = .newline

theorem Token.isNewlineIff {token : Token} : token.isNewline = true ↔ token.kind = .newline := by
  simp [isNewline]

theorem Token.otherNewline {token : Token} (other : token.kind ≠ .newline) : token.isNewline = false := by
  simpa [isNewline] using other

/-- The first newline of every run is kept. If the tokens stand behind a newline, a run at their
front has its first newline there. -/
def thinned (behind : Bool) : List Token → List Token
  | [] => []
  | token :: tokens =>
    if behind && token.isNewline then thinned true tokens
    else token :: thinned token.isNewline tokens

variable {token : Token} {tokens front : List Token} {behind : Bool}

theorem thinnedPlain (plain : token.isNewline = false) :
    thinned behind (token :: tokens) = token :: thinned false tokens := by
  rw [thinned,plain,Bool.and_false]
  rfl

theorem thinnedBehind (tokens : List Token) :
    thinned true tokens = thinned false (tokens.dropWhile Token.isNewline) := by
  induction tokens with
  | nil => rfl
  | cons token tokens ih =>
    cases newline : token.isNewline with
    | false => simp [thinned,newline]
    | true => simp [thinned,newline,ih]

theorem thinnedDrop (behind : Bool) (tokens : List Token) :
    (thinned behind tokens).dropWhile Token.isNewline = thinned true tokens := by
  induction tokens generalizing behind with
  | nil => rfl
  | cons token tokens ih =>
    cases newline : token.isNewline with
    | false => simp [thinned,newline]
    | true => cases behind <;> simp [thinned,newline,ih]

theorem thinnedFront (plain : ∀ x ∈ front, x.isNewline = false) :
    thinned false (front ++ tokens) = front ++ thinned false tokens := by
  induction front with
  | nil => rfl
  | cons token front ih =>
    obtain ⟨first,others⟩ := List.forall_mem_cons.mp plain
    rw [List.cons_append,thinnedPlain first,ih others,List.cons_append]

theorem thinnedMoved (place : Location → Location) (behind : Bool) (tokens : List Token) :
    thinned behind (tokens.map (Token.moved place)) = (thinned behind tokens).map (Token.moved place) := by
  induction tokens generalizing behind with
  | nil => rfl
  | cons token tokens ih =>
    have same : (token.moved place).isNewline = token.isNewline := rfl
    rw [List.map_cons,thinned,thinned,same]
    split
    · exact ih true
    · rw [ih,List.map_cons]

namespace Cursor
variable {α : Type} {c d e : Cursor}

abbrev thin : Cursor → Cursor := onAhead (thinned false)

theorem thinFront : KeepsFront thin where
  current c := by
    obtain ⟨ahead,bodies⟩ := c
    cases ahead <;> rfl
  advance {c} plain := by
    obtain ⟨ahead,bodies⟩ := c
    cases ahead with
    | nil => rfl
    | cons token tokens =>
      have plain : token.isNewline = false := Token.otherNewline plain
      by_cases ended : token.kind = .finish
      · simp [advance,onAhead,thinnedPlain plain,kind,current,ended]
      · simp [advance,onAhead,thinnedPlain plain,kind,current,ended]

def Past (c d : Cursor) : Prop := ∃ passed, c.ahead = passed ++ d.ahead ∧ ∀ x ∈ passed, x.isNewline = false

theorem Past.refl (c : Cursor) : Past c c := ⟨[],rfl,by simp⟩

theorem Past.trans (first : Past c d) (last : Past d e) : Past c e := by
  obtain ⟨passed,same,plain⟩ := first
  obtain ⟨more,same',plain'⟩ := last
  refine ⟨passed ++ more,by rw [same,same',List.append_assoc],fun x member => ?_⟩
  exact (List.mem_append.mp member).elim (plain x) (plain' x)

theorem pastAdvance (plain : c.kind ≠ .newline) : Past c c.advance := by
  by_cases ended : c.kind = .finish
  · rw [advance,if_pos ended]
    exact .refl c
  · obtain ⟨ahead,bodies⟩ := c
    rw [advance,if_neg ended]
    cases ahead with
    | nil => exact .refl _
    | cons token tokens =>
      refine ⟨[token],rfl,fun x member => ?_⟩
      rw [List.mem_singleton.mp member]
      exact Token.otherNewline plain

theorem pastLaw : Law (fun _ p c => Past c (p c).after) := reachLaw Past.refl Past.trans pastAdvance

theorem Past.even (h : Past c d) : Even thin c d := by
  obtain ⟨passed,same,plain⟩ := h
  simp only [Even,left,onAhead,same,thinnedFront plain,List.length_append]
  omega

def pastNewlines : Cursor → Cursor := onAhead (List.dropWhile Token.isNewline)

theorem thinPast : c.thin.pastNewlines = c.pastNewlines.thin :=
  congrArg (Cursor.mk · c.bodies) ((thinnedDrop false c.ahead).trans (thinnedBehind c.ahead))

theorem skipsAll {p : Cursor → Parsed α} (skips : ∀ c : Cursor, c.kind = .newline → p c = p c.advance)
    (c : Cursor) : p c = p c.pastNewlines := by
  obtain ⟨ahead,bodies⟩ := c
  induction ahead with
  | nil => rfl
  | cons token tokens ih =>
    cases newline : token.isNewline with
    | false => rw [pastNewlines,onAhead,List.dropWhile_cons_of_neg (by simp [newline])]
    | true =>
      have kind : token.kind = .newline := Token.isNewlineIff.mp newline
      have behind : (⟨token :: tokens,bodies⟩ : Cursor).advance = ⟨tokens,bodies⟩ :=
        if_neg (fun ended => by simp [Cursor.kind,current,kind] at ended)
      rw [skips ⟨token :: tokens,bodies⟩ kind,behind,ih,pastNewlines,onAhead,onAhead,
        List.dropWhile_cons_of_pos newline]

theorem thinSkip {p : Cursor → Parsed α} (newline : c.kind = .newline)
    (skips : ∀ d : Cursor, d.kind = .newline → p d = p d.advance) (h : Commutes thin α p c.advance) :
    Commutes thin α p c := by
  have same : c.advance.pastNewlines = c.pastNewlines := by
    obtain ⟨ahead,bodies⟩ := c
    cases ahead with
    | nil => contradiction
    | cons token tokens =>
      have first : token.isNewline = true := Token.isNewlineIff.mpr newline
      have behind : (⟨token :: tokens,bodies⟩ : Cursor).advance = ⟨tokens,bodies⟩ :=
        if_neg (fun ended => by simp [newline] at ended)
      rw [behind,pastNewlines,onAhead,onAhead,List.dropWhile_cons_of_pos first]
  have past : c.thin.pastNewlines = c.advance.thin.pastNewlines := by rw [thinPast,thinPast,same]
  calc p c.thin = p c.advance.thin := by rw [skipsAll skips,past,← skipsAll skips]
    _ = ⟨(p c.advance).result,(p c.advance).after.thin⟩ := h
    _ = ⟨(p c).result,(p c).after.thin⟩ := by rw [skips c newline]

theorem thinStatements : StatementLaw (Commutes thin) := thinFront.statements pastLaw Past.even thinSkip

end Cursor
end JutsuSyntax
