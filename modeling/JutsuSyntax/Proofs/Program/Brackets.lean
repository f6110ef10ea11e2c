import JutsuSyntax.Proofs.Program.Joining

/-! The scanner's count of open brackets against the pairs that the brackets of a program make. A
place inside a pair is one with a bracket open; so a newline of a program is a token outside all
pairs and layout inside one. -/
namespace JutsuSyntax
open Token (Symbol)

theorem behindFront {α : Type} {x : α} {head inner before after : List α} (other : x ∉ head)
    (same : head ++ inner = before ++ x :: after) :
    ∃ between, before = head ++ between ∧ inner = between ++ x :: after := by
  induction head generalizing before with
  | nil => exact ⟨before,rfl,same⟩
  | cons y head ih =>
    obtain ⟨differ,other⟩ := List.ne_and_not_mem_of_not_mem_cons other
    cases before with
    | nil => exact absurd (List.cons.inj same).1.symm differ
    | cons z before =>
      obtain ⟨rfl,rest⟩ := List.cons.inj same
      obtain ⟨between,rfl,split⟩ := ih other rest
      exact ⟨between,rfl,split⟩

namespace Grammar

inductive Enclosed : List Token → List Token → Prop where
  | pair {outer opening inner inner' closing rest s close} (opens : opening.kind = .symbol s)
      (pairs : s.closer = some close) (inside : Nested (inner ++ inner'))
      (closes : closing.kind = .symbol close) :
      Enclosed (outer ++ opening :: inner) (inner' ++ closing :: rest)

variable {tokens before after front : List Token} {depth : Nat}

theorem Enclosed.first {opening closing : Token} {inner inner' rest : List Token} {s close : Symbol}
    (opens : opening.kind = .symbol s) (pairs : s.closer = some close)
    (inside : Nested (inner ++ inner')) (closes : closing.kind = .symbol close) :
    Enclosed (opening :: inner) (inner' ++ closing :: rest) :=
  @Enclosed.pair [] opening inner inner' closing rest s close opens pairs inside closes

theorem Enclosed.behind (h : Enclosed before after) (front : List Token) :
    Enclosed (front ++ before) after := by
  cases h with
  | pair opens pairs inside closes =>
    rw [← List.append_assoc]
    exact .pair opens pairs inside closes

theorem Nested.place (h : Nested tokens) (same : tokens = before ++ after) (depth : Nat) :
    Enclosed before after ∧ depth < before.foldl Token.depthPast depth ∨
      before.foldl Token.depthPast depth = depth := by
  induction h generalizing before after depth with
  | none =>
    have empty : before = [] := (List.append_eq_nil_iff.mp same.symm).1
    exact .inr (by rw [empty]; rfl)
  | @plain token tokens other rest ih =>
    cases before with
    | nil => exact .inr rfl
    | cons x xs =>
      obtain ⟨rfl,behind⟩ := List.cons.inj same
      rw [List.foldl_cons,bracketlessDepth other]
      exact (ih behind depth).imp_left (fun within => ⟨within.1.behind [token],within.2⟩)
  | @pair opening inner closing rest s close opens pairs inside closes behind within outside =>
    cases before with
    | nil => exact .inr rfl
    | cons x xs =>
      obtain ⟨rfl,split⟩ := List.cons.inj same
      rw [List.foldl_cons,openingDepth opens pairs]
      rcases List.append_eq_append_iff.mp split with ⟨past,rfl,more⟩ | ⟨left,rfl,rfl⟩
      · rw [List.foldl_append,inside.balanced]
        cases past with
        | nil =>
          rw [List.nil_append] at more
          subst more
          have nested : Nested (inner ++ []) := by rwa [List.append_nil]
          refine .inl ⟨?_,Nat.lt_succ_self depth⟩
          simpa using Enclosed.first opens pairs nested closes
        | cons y ys =>
          obtain ⟨rfl,later⟩ := List.cons.inj more
          rw [List.foldl_cons,closingDepth pairs closes]
          refine (outside later depth).imp_left (fun within => ⟨?_,within.2⟩)
          simpa using within.1.behind (opening :: inner ++ [closing])
      · have higher : depth + 1 ≤ xs.foldl Token.depthPast (depth + 1) := by
          rcases within rfl (depth + 1) with ⟨_,more⟩ | level
          · exact Nat.le_of_lt more
          · exact Nat.le_of_eq level.symm
        exact .inl ⟨.first opens pairs inside closes,higher⟩

theorem Enclosed.counted (h : Enclosed before after) : openBrackets before ≠ 0 := by
  cases h with
  | @pair outer opening inner inner' closing rest s close opens pairs inside closes =>
    rw [openBrackets,List.foldl_append,List.foldl_cons,openingDepth opens pairs]
    rcases inside.place rfl (outer.foldl Token.depthPast 0 + 1) with ⟨_,more⟩ | level
    · omega
    · omega

theorem Nested.enclosed (h : Nested (before ++ after)) (counted : openBrackets before ≠ 0) :
    Enclosed before after := by
  rcases h.place rfl 0 with ⟨within,_⟩ | level
  · exact within
  · exact absurd level counted

variable {newline : Token} {t : Tree} {ts : List Tree}

theorem bodyEncloses (h : Body tokens ts) (kind : newline.kind = .newline)
    (same : tokens = before ++ newline :: after) : Enclosed before (newline :: after) := by
  cases h with
  | @braces opening closing inner _ opens statements closes =>
    have first : newline ∉ [opening] := by
      intro member
      simp [List.mem_singleton.mp member,opens] at kind
    obtain ⟨between,rfl,split⟩ := behindFront first same
    rcases List.append_eq_append_iff.mp split with ⟨past,rfl,last⟩ | ⟨left,rfl,last⟩
    · cases past with
      | nil =>
        cases last
        simp [closes] at kind
      | cons y ys => simp at last
    · cases left with
      | nil =>
        cases last
        simp [closes] at kind
      | cons y left =>
        obtain ⟨rfl,rfl⟩ := List.cons.inj last
        exact .first opens rfl (statementsNested statements) closes

theorem operandPlain {l : Level} (o : Operand l tokens t) (kind : newline.kind = .newline) :
    newline ∉ tokens :=
  fun member => (expressiveOnly (operandVocabulary o newline member)).2.1 kind

theorem parametersPlain {names} (h : Parameters tokens names) (kind : newline.kind = .newline) :
    newline ∉ tokens := by
  intro member
  have parameter := parametersOnly h newline member
  simp [Cursor.isParameterToken,kind] at parameter

theorem statementEncloses (h : Statement tokens t) (kind : newline.kind = .newline)
    (same : tokens = before ++ newline :: after) : Enclosed before (newline :: after) := by
  have member : newline ∈ tokens := by simp [same]
  have differs {token : Token} {s : Symbol} (other : token.kind = .symbol s) : newline ≠ token := by
    intro given
    obtain rfl := given
    simp [kind] at other
  have unnamed {token : Token} (named : token.kind = .name) : newline ≠ token := by
    intro given
    obtain rfl := given
    simp [kind] at named
  cases h with
  | expression only => exact absurd member (operandPlain only kind)
  | assignment named sign value | augmented named sign _ value =>
    simp [unnamed named,differs sign,operandPlain value kind] at member
  | returned keyword value | print keyword value =>
    simp [differs keyword,operandPlain value kind] at member
  | conditional keyword condition body =>
    have head := List.not_mem_cons_of_ne_of_not_mem (differs keyword) (operandPlain condition kind)
    obtain ⟨between,rfl,split⟩ := behindFront head same
    exact (bodyEncloses body kind split).behind _
  | @definition keyword name opening tokens closing inner names statements word named opens list
      closes body =>
    have head : newline ∉ keyword :: name :: opening :: tokens ++ [closing] := by
      simp [differs word,unnamed named,differs opens,differs closes,parametersPlain list kind]
    obtain ⟨between,rfl,split⟩ := @behindFront _ _ _ inner _ _ head (by simpa using same)
    exact (bodyEncloses body kind split).behind _

end Grammar

def commentStep (inside : Bool) (c : Char) : Bool := if inside then c ≠ '\n' else c = '#'

def endsInComment (layout : List Char) : Bool := layout.foldl commentStep false

variable {tokens : List Token} {gap rest front back line : List Char} {depth : Nat}

theorem commentOpen (within : '\n' ∉ line) : line.foldl commentStep true = true := by
  induction line with
  | nil => rfl
  | cons c line ih =>
    obtain ⟨other,within⟩ := List.ne_and_not_mem_of_not_mem_cons within
    have step : commentStep true c = true := by simpa [commentStep] using Ne.symm other
    rw [List.foldl_cons,step,ih within]

theorem commentPast (within : '\n' ∉ line) (layout : List Char) :
    endsInComment ('#' :: (line ++ '\n' :: layout)) = endsInComment layout := by
  have sharp : commentStep false '#' = true := rfl
  have newline : commentStep true '\n' = false := rfl
  rw [endsInComment,List.foldl_cons,sharp,List.foldl_append,commentOpen within,List.foldl_cons,newline]
  rfl

theorem gapNewline (h : Gap depth gap rest) (same : gap = front ++ '\n' :: back)
    (plain : endsInComment front = false) : depth ≠ 0 := by
  induction h generalizing front with
  | none => simp at same
  | blank blank more ih =>
    cases front with
    | nil =>
      obtain ⟨rfl,_⟩ := List.cons.inj same
      simp at blank
    | cons c front =>
      obtain ⟨rfl,behind⟩ := List.cons.inj same
      refine ih behind ?_
      rcases blank with rfl | rfl | rfl <;> exact plain
  | newline inside more ih => exact inside
  | comment within more ih =>
    cases front with
    | nil => simp at same
    | cons c front =>
      obtain ⟨rfl,behind⟩ := List.cons.inj same
      obtain ⟨past,rfl,later⟩ := behindFront within behind
      cases past with
      | nil => exact absurd (commentOpen within) (by simpa [endsInComment,commentStep] using plain)
      | cons d past =>
        obtain ⟨rfl,later⟩ := List.cons.inj later
        exact ih (List.cons.inj later).2 ((commentPast within past).symm.trans plain)
  | lastComment within =>
    cases front with
    | nil => simp at same
    | cons c front =>
      obtain ⟨rfl,behind⟩ := List.cons.inj same
      simp [behind] at within

theorem scanDepth (s : Scanner) {tokens} (read : s.scan.result = .ok tokens) :
    s.scan.after.depth = tokens.foldl Token.depthPast s.depth := by
  induction s using Scanner.scanInduct generalizing tokens with
  | ended s ahead =>
    rw [Scanner.scanNil ahead] at read ⊢
    cases read
    rfl
  | fails s c cs fault ahead found =>
    rw [Scanner.scanError ahead found] at read
    cases fault <;> contradiction
  | passes s c cs piece ahead found ih =>
    obtain ⟨later,rest,rfl⟩ := yieldPast ahead found read
    rw [Scanner.scanOk ahead found,List.foldl_append,yieldDepth]
    exact ih rest

theorem newlineDepth {tiles : List Tile} {before after : List Token} {newline : Token}
    (tiling : Tiling [] 0 tiles) (same : tiles.map Tile.token = before ++ newline :: after)
    (kind : newline.kind = .newline) : openBrackets before = 0 := by
  obtain ⟨front,behind,rfl,rfl,split⟩ := List.map_eq_append_iff.mp same
  obtain ⟨tile,later,rfl,rfl,rfl⟩ := List.map_eq_cons_iff.mp split
  rcases (tilingFits tiling rfl).stands with ⟨_,_,outside⟩ | ⟨ended,_⟩ | lexes
  · exact outside
  · rw [kind] at ended
    contradiction
  · exact absurd kind (lexesWord lexes).2

theorem bracketsAgree (text : String) (t : Tree) (accepted : parseText text = .ok t) :
    ∃ tokens tiles, tokenize text = .ok tokens ∧
      (∀ x ∈ tokens, ∀ s ∈ [Symbol.openBracket,.closeBracket,.colon,.dot,.elifWord,.elseWord],
        x.kind ≠ .symbol s) ∧
      Grammar.Nested tokens ∧
      (∀ before newline after, tokens = before ++ newline :: after → newline.kind = .newline →
        ¬ Grammar.Enclosed before (newline :: after)) ∧
      (tiles.map Tile.token = tokens ∧ text.toList = written tiles ∧ Tiling [] 0 tiles ∧
        ∀ before tile after front back, tiles = before ++ tile :: after →
          tile.gap = front ++ '\n' :: back → endsInComment front = false →
          Grammar.Enclosed (before.map Tile.token) ((tile :: after).map Tile.token)) ∧
      (Scanner.ofText text).scan.after.depth = 0 := by
  obtain ⟨front,last,ts,lexed,ended,rfl,lines⟩ := parseTextProgram accepted
  have nested : Grammar.Nested (front ++ [last]) :=
    (Grammar.linesNested lines).append (Grammar.bracketlessOther (by simp [ended])).one
  obtain ⟨tiles,same,whole,tiling⟩ := @scanTiles (Scanner.ofText text) [] _ rfl lexed
  refine ⟨_,tiles,lexed,?_,nested,?_,⟨same,whole,tiling,?_⟩,?_⟩
  · intro x member s other kind
    rcases List.mem_append.mp member with inside | final
    · have occurs := Grammar.linesOccur lines x inside
      rw [kind] at occurs
      exact absurd other (by simpa [Grammar.occurs] using occurs)
    · rw [List.mem_singleton.mp final,ended] at kind
      contradiction
  · intro before newline after split kind enclosed
    exact enclosed.counted (newlineDepth tiling (same.trans split) kind)
  · intro before tile after front' back split gap plain
    have counted := gapNewline (tilingFits tiling split).layout gap plain
    refine Grammar.Nested.enclosed ?_ counted
    rw [← List.map_append,← split,same]
    exact nested
  · rw [scanDepth (Scanner.ofText text) lexed]
    exact nested.balanced 0

def spanning : String := "if f(\n 1) \x7b\n # one \x7d\n\x7d\nx"

def spanned : Tree :=
  .program [.conditional (.expression (.call "f" [.expression (.integer "1")])) [],
    .expression (.identifier "x")]

theorem spanningAgrees : parseText spanning = .ok spanned ∧
    ∃ tokens, tokenize spanning = .ok tokens ∧ Grammar.Nested tokens ∧
      (∀ before newline after, tokens = before ++ newline :: after → newline.kind = .newline →
        ¬ Grammar.Enclosed before (newline :: after)) ∧
      (Scanner.ofText spanning).scan.after.depth = 0 := by
  have accepted : parseText spanning = .ok spanned := by decide +kernel
  obtain ⟨tokens,_,lexed,_,nested,outside,_,closed⟩ := bracketsAgree spanning spanned accepted
  exact ⟨accepted,tokens,lexed,nested,outside,closed⟩

end JutsuSyntax
