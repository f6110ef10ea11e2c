import JutsuSyntax.Expression.Reading
import JutsuSyntax.Proofs.Cursor.Blame
import JutsuSyntax.Proofs.Expression.Edges

/-! What reading an expression gives: a tree that the grammar makes of the tokens passed, in front
of a token that does not go on with them, or an error at the first token that cannot be right. -/
namespace JutsuSyntax.Cursor
open Grammar
open Token (Symbol)

variable {l next : Level} {operators : List Symbol} {left : Tree} {token second : Token}
  {ahead rest : List Token}

def Makes (l : Level) (tokens : List Token) : Prop := ∃ t, Operand l tokens t

theorem nameOperand (l : Level) (kind : token.kind = .name) :
    Operand l [token] (Tree.identifier token.payload) := by
  have factor := Operand.unsigned (l := .factor) rfl (.base (.name kind))
  have comparison := Operand.tighter (l := .comparison) rfl
    (.tighter (l := .sum) rfl (.tighter (l := .term) rfl factor))
  have inversion := Operand.unsigned (l := .inversion) rfl comparison
  cases l with
  | disjunction => exact .tighter rfl (.tighter (l := .conjunction) rfl inversion)
  | conjunction => exact .tighter rfl inversion
  | inversion => exact inversion
  | comparison => exact comparison
  | sum => exact .tighter rfl (.tighter (l := .term) rfl factor)
  | term => exact .tighter rfl factor
  | factor => exact factor
  | power => exact .base (.name kind)
  | primary => exact .name kind

theorem makesSome (l : Level) : ∃ tokens, Makes l tokens :=
  ⟨[⟨.name,none,.start⟩],_,nameOperand l rfl⟩

def LevelReads (l : Level) (ahead : List Token) : Prop :=
  Reads (fun _ => True) Plain (fun passed token t => Operand l passed t ∧ Stops l passed token.kind)
    (Makes l) (level l) ahead

def Extends (l : Level) (left : Tree) (passed : List Token) (t : Tree) : Prop :=
  ∀ before, Operand l before left → Operand l (before ++ passed) t

def ChainReads (l next : Level) (operators : List Symbol) (left : Tree) (ahead : List Token) : Prop :=
  Reads (fun _ => True) Plain
    (fun passed token t => Extends l left passed t ∧ (passed ≠ [] → Stops next passed token.kind) ∧
      ∀ s ∈ operators, token.kind ≠ .symbol s)
    (fun tokens => ∃ t, Extends l left tokens t) (chain operators next left) ahead

theorem Extends.step {s passed right tokens t} (form : l.form = .chain operators next)
    (member : s ∈ operators) (kind : token.kind = .symbol s) (last : Operand next passed right)
    (h : Extends l (Tree.binary s.spelling left right) tokens t) :
    Extends l left (token :: (passed ++ tokens)) t := by
  intro before first
  simpa using h _ (.chain form member kind first last)

theorem extendsOne {s passed right} (form : l.form = .chain operators next) (member : s ∈ operators)
    (kind : token.kind = .symbol s) (last : Operand next passed right) :
    Extends l left (token :: passed) (Tree.binary s.spelling left right) :=
  fun _ first => .chain form member kind first last

theorem stopsChain {front passed : List Token} {tokens : List Token}
    (same : token :: tokens = passed ++ second :: rest) (before : Stops next front token.kind)
    (last : passed ≠ [] → Stops next passed second.kind) : Stops next (front ++ passed) second.kind := by
  cases passed with
  | nil =>
    cases same
    simpa using before
  | cons x xs => exact (stopsBehind (List.cons_ne_nil x xs)).mpr (last (List.cons_ne_nil x xs))

theorem stopsLoose {passed : List Token} {kind} (form : l.form = .chain operators next)
    (stops : Stops next passed kind) (other : ∀ s ∈ operators, kind ≠ .symbol s) :
    Stops l passed kind := by
  refine ⟨fun s member => ?_,stops.2⟩
  rcases List.mem_append.mp (Level.jointsChain form ▸ member) with own | tighter
  · exact other s own
  · exact stops.1 s tighter

theorem levelReadsChain (form : l.form = .chain operators next) (ends : Ends ahead)
    (first : LevelReads next ahead)
    (go : ∀ passed token rest t, ahead = passed ++ token :: rest → passed ≠ [] → Ends (token :: rest) →
      ChainReads l next operators t (token :: rest)) : LevelReads l ahead := by
  unfold LevelReads
  rw [funext (levelChain form)]
  refine Reads.andThen first ?_ ?_ ?_ ends
  · intro tokens _ more given
    obtain ⟨t,whole⟩ := given
    exact ⟨more,t,.tighter form whole⟩
  · intro passed token t given
    obtain ⟨operand,_⟩ := given
    exact ⟨[],t,by simpa using .tighter form operand⟩
  · intro passed token rest t same later given
    obtain ⟨operand,stops⟩ := given
    refine (go passed token rest t same (operandFilled operand) later).weaken ?_ ?_
    · intro others last rest' u same' given
      obtain ⟨longer,tight,other⟩ := given
      exact ⟨longer _ (.tighter form operand),stopsLoose form (stopsChain same' stops tight) other⟩
    · intro tokens _ more given
      obtain ⟨u,longer⟩ := given
      exact ⟨more,u,longer _ (.tighter form operand)⟩

theorem chainReadsStep {s} (form : l.form = .chain operators next) (member : s ∈ operators)
    (kind : token.kind = .symbol s) (ends : Ends rest) (operand : LevelReads next rest)
    (go : ∀ passed second others t, rest = passed ++ second :: others → Ends (second :: others) →
      ChainReads l next operators t (second :: others)) :
    ChainReads l next operators left (token :: rest) := by
  obtain ⟨tokens,t,some⟩ := makesSome next
  have more : token.kind ≠ .finish := by simp [kind]
  have read : Reads (fun _ => True) Plain (fun passed last t => Extends l left (token :: passed) t ∧
      (token :: passed ≠ [] → Stops next (token :: passed) last.kind) ∧
      ∀ s ∈ operators, last.kind ≠ .symbol s) (fun passed => ∃ t, Extends l left (token :: passed) t)
      (fun c => (c.level next).andThen (fun right d =>
        chain operators next (Tree.binary s.spelling left right) d)) rest := by
    refine Reads.andThen operand ?_ ?_ ?_ ends
    · intro tokens _ more given
      obtain ⟨right,whole⟩ := given
      exact ⟨more,_,extendsOne form member kind whole⟩
    · intro passed second right given
      obtain ⟨last,_⟩ := given
      exact ⟨[],_,extendsOne form member kind (by simpa using last)⟩
    · intro passed second others right same later given
      obtain ⟨last,stops⟩ := given
      refine (go passed second others _ same later).weaken ?_ ?_
      · intro more third others' u same' given
        obtain ⟨longer,tight,other⟩ := given
        refine ⟨longer.step form member kind last,fun _ => ?_,other⟩
        rw [stopsCons (by simp [operandFilled last])]
        exact stopsChain same' stops tight
      · intro tokens _ more given
        obtain ⟨u,longer⟩ := given
        exact ⟨more,u,longer.step form member kind last⟩
  obtain ⟨second,others,rfl⟩ := endsFilled ends
  exact Reads.pass more ⟨tokens,_,extendsOne form member kind some⟩ read
    (fun c same _ _ => chainStep member (same.trans kind) _ _)

theorem chainReadsStop (other : ∀ s ∈ operators, token.kind ≠ .symbol s) :
    ChainReads l next operators left (token :: rest) := by
  refine Outcome.congr (q := fun c => ⟨.ok left,c⟩) (.stay ?_) (fun c same _ => ?_)
  · exact ⟨fun before first => by simpa using first,nofun,other⟩
  · exact chainStop (fun s member => same ▸ other s member) _ _

theorem levelReadsSigned {operator} (form : l.form = .sign operator next)
    (kind : token.kind = .symbol operator) (ends : Ends rest) (operand : LevelReads l rest) :
    LevelReads l (token :: rest) := by
  obtain ⟨tokens,t,some⟩ := makesSome l
  have read : Reads (fun _ => True) Plain
      (fun passed last t => Operand l (token :: passed) t ∧ Stops l (token :: passed) last.kind)
      (fun passed => Makes l (token :: passed))
      (fun c => (c.level l).map (Tree.unary operator.spelling)) rest := by
    refine Outcome.map (Reads.weaken operand ?_ ?_)
    · intro passed last _ t _ given
      obtain ⟨inner,stops⟩ := given
      exact ⟨.signed form kind inner,(stopsCons (operandFilled inner)).mpr stops⟩
    · intro tokens _ more given
      obtain ⟨t,whole⟩ := given
      exact ⟨more,_,.signed form kind whole⟩
  obtain ⟨second,others,rfl⟩ := endsFilled ends
  refine Reads.pass (by simp [kind]) ⟨tokens,_,.signed form kind some⟩ read (fun c same _ _ => ?_)
  rw [levelSign form,if_pos (same.trans kind)]

theorem levelReadsUnsigned {operator} (form : l.form = .sign operator next)
    (other : token.kind ≠ .symbol operator) (operand : LevelReads next (token :: rest)) :
    LevelReads l (token :: rest) := by
  refine Outcome.congr (q := level next) (Reads.weaken operand ?_ ?_) (fun c same _ => ?_)
  · intro passed last _ t _ given
    obtain ⟨inner,stops⟩ := given
    exact ⟨.unsigned form inner,stopsTighter (fun s => Level.jointsSign form ▸ id) stops⟩
  · intro tokens _ more given
    obtain ⟨t,whole⟩ := given
    exact ⟨more,t,.unsigned form whole⟩
  · rw [levelSign form,if_neg (same ▸ other)]

theorem levelReadsPower (ends : Ends ahead) (first : LevelReads .primary ahead)
    (go : ∀ passed token rest, ahead = passed ++ token :: rest → Ends rest →
      LevelReads .factor rest) : LevelReads .power ahead := by
  unfold LevelReads
  rw [funext levelPower]
  obtain ⟨filler,some,operand⟩ := makesSome .factor
  refine Reads.andThen first ?_ ?_ ?_ ends
  · intro tokens _ more given
    obtain ⟨t,whole⟩ := given
    exact ⟨more,t,.base whole⟩
  · intro passed token t given
    obtain ⟨base,_⟩ := given
    exact ⟨[],t,by simpa using .base base⟩
  · intro passed token rest t same later given
    obtain ⟨base,stops⟩ := given
    by_cases sign : token.kind = .symbol .starStar
    · have more : token.kind ≠ .finish := by simp [sign]
      have behind : Ends rest := endsPast later more
      have exponent := go passed token rest same behind
      obtain ⟨second,others,rfl⟩ := endsFilled behind
      refine Reads.pass (q := fun c => (c.level .factor).map (Tree.binary Symbol.starStar.spelling t))
        more ⟨filler,_,.power sign base operand⟩ ?_ (fun c kind _ _ => ?_)
      · refine Outcome.map (Reads.weaken exponent ?_ ?_)
        · intro inner last _ u _ given
          obtain ⟨tight,end'⟩ := given
          refine ⟨.power sign base tight,?_⟩
          rw [List.append_cons,stopsBehind (operandFilled tight)]
          exact end'
        · intro tokens _ more given
          obtain ⟨u,whole⟩ := given
          exact ⟨more,_,.power sign base whole⟩
      · exact if_pos (kind.trans sign)
    · refine Outcome.congr (q := fun c => ⟨.ok t,c⟩) (.stay ?_) (fun c kind _ => ?_)
      · rw [List.append_nil]
        refine ⟨.base base,fun s member => ?_,stops.2⟩
        cases (List.mem_singleton.mp (show s ∈ [Symbol.starStar] from member))
        exact sign
      · exact if_neg (kind ▸ sign)

theorem levelReadsLeaf {t : Tree} (more : token.kind ≠ .finish) (operand : Operand .primary [token] t)
    (plain : second.kind = .symbol .openParen → token.kind ≠ .name)
    (read : ∀ c : Cursor, c.kind = token.kind → c.payload = token.payload →
      c.advance.kind = second.kind → c.primary = ⟨.ok t,c.advance⟩) :
    LevelReads .primary (token :: second :: rest) := by
  refine Reads.pass (q := fun c => ⟨.ok t,c⟩) more ⟨[],t,operand⟩ (.stay ⟨operand,nofun,?_⟩) ?_
  · intro paren last member
    cases (by simpa using member : token = last)
    exact plain paren
  · intro c kind payload ahead
    rw [levelPrimary,read c kind payload ahead]

theorem levelReadsRefused (other : ∀ c : Cursor, c.kind = token.kind →
    c.primary = ⟨.error (.noAlternative .expression c.current),c⟩) :
    LevelReads .primary (token :: rest) := by
  refine Outcome.congr (Outcome.refuse (f := .noAlternative .expression) ?_ (fun _ _ => rfl)) ?_
  · exact ⟨⟨rfl,nofun⟩,rfl,nofun⟩
  · intro c kind _
    rw [levelPrimary,other c kind]

theorem expressionReads (h : LevelReads .disjunction ahead) :
    Reads (fun _ => True) Plain (fun passed token t => ∃ u, t = Tree.expression u ∧
      Operand .disjunction passed u ∧ Stops .disjunction passed token.kind)
      (Makes .disjunction) expression ahead := by
  refine Outcome.map (Reads.weaken h ?_ ?_)
  · exact fun _ _ _ t _ fits => ⟨t,rfl,fits⟩
  · exact fun _ _ more whole => ⟨more,whole⟩

theorem levelReadsParen (kind : token.kind = .symbol .openParen) (ends : Ends rest)
    (inner : LevelReads .disjunction rest) : LevelReads .primary (token :: rest) := by
  obtain ⟨filler,some,operand⟩ := makesSome .disjunction
  let closing : Token := ⟨.symbol .closeParen,none,.start⟩
  have whole {tokens t} (h : Operand .disjunction tokens t) : Makes .primary (token :: (tokens ++ [closing])) :=
    ⟨_,.paren kind h rfl⟩
  have read : Reads (fun _ => True) Plain
      (fun passed last t => Operand .primary (token :: passed) t ∧
        Stops .primary (token :: passed) last.kind) (fun passed => Makes .primary (token :: passed))
      (fun c => c.expression.andThen (fun inner d =>
        (d.expect (.symbol .closeParen)).map (fun _ => inner))) rest := by
    refine Reads.andThen (expressionReads inner) ?_ ?_ ?_ ends
    · intro tokens _ more given
      obtain ⟨t,h⟩ := given
      exact ⟨more ++ [closing],by simpa using whole h⟩
    · intro passed last _ given
      obtain ⟨t,_,h,_⟩ := given
      exact ⟨[closing],whole h⟩
    · intro passed last others _ _ later given
      obtain ⟨t,rfl,h,_⟩ := given
      refine Reads.expectLast later (by simp) (plainUnexpected _) (fun last next _ _ closes => ?_)
      exact ⟨.paren kind h closes,@stopsClosed (token :: passed) _ last (by simp [closes])⟩
  obtain ⟨second,others,rfl⟩ := endsFilled ends
  refine Reads.pass (by simp [kind]) ⟨_,whole operand⟩ read (fun c same _ _ => ?_)
  rw [levelPrimary,primary,same.trans kind]

def ListReads (ahead : List Token) : Prop :=
  Reads (fun _ => True) Plain (fun passed _ ts => ts ≠ [] ∧ Arguments passed ts)
    (fun tokens => ∃ ts, ts ≠ [] ∧ Arguments tokens ts) argumentList ahead

def ArgumentsReads (ahead : List Token) : Prop :=
  Reads (fun _ => True) Plain (fun passed _ ts => Arguments passed ts)
    (fun tokens => ∃ ts, Arguments tokens ts) arguments ahead

theorem argumentsBehind {passed others t ts} (first : Operand .disjunction passed t)
    (comma : token.kind = .symbol .comma) (h : ts ≠ [] ∧ Arguments others ts) :
    Arguments (passed ++ token :: others) (Tree.expression t :: ts) := by
  obtain ⟨filled,arguments⟩ := h
  obtain ⟨u,us,rfl⟩ := List.exists_cons_of_ne_nil filled
  exact .more first comma arguments

theorem listReads (ends : Ends ahead) (first : LevelReads .disjunction ahead)
    (go : ∀ passed token rest, ahead = passed ++ token :: rest → Ends rest → ListReads rest) :
    ListReads ahead := by
  unfold ListReads
  rw [funext argumentListStep]
  obtain ⟨filler,some,operand⟩ := makesSome .disjunction
  refine Reads.andThen (expressionReads first) ?_ ?_ ?_ ends
  · intro tokens _ more given
    obtain ⟨t,whole⟩ := given
    exact ⟨more,_,List.cons_ne_nil _ _,.one whole⟩
  · intro passed token _ given
    obtain ⟨t,_,whole,_⟩ := given
    exact ⟨[],_,List.cons_ne_nil _ _,by simpa using .one whole⟩
  · intro passed token rest _ same later given
    obtain ⟨t,rfl,whole,_⟩ := given
    by_cases comma : token.kind = .symbol .comma
    · have more : token.kind ≠ .finish := by simp [comma]
      have behind := endsPast later more
      have others := go passed token rest same behind
      obtain ⟨second,rest,rfl⟩ := endsFilled behind
      refine Reads.pass (q := fun c => c.argumentList.map (Tree.expression t :: ·)) more ?_ ?_ ?_
      · exact ⟨filler,_,List.cons_ne_nil _ _,.more whole comma (.one operand)⟩
      · refine Outcome.map (Reads.weaken others ?_ ?_)
        · exact fun _ _ _ ts _ fits => ⟨List.cons_ne_nil _ _,argumentsBehind whole comma fits⟩
        · intro tokens _ more given
          obtain ⟨ts,fits⟩ := given
          exact ⟨more,_,List.cons_ne_nil _ _,argumentsBehind whole comma fits⟩
      · exact fun c kind _ _ => if_pos (kind.trans comma)
    · refine Outcome.congr (q := fun c => ⟨.ok [Tree.expression t],c⟩) (.stay ?_) ?_
      · exact ⟨List.cons_ne_nil _ _,by simpa using .one whole⟩
      · exact fun c kind _ => if_neg (kind ▸ comma)

theorem argumentsReads (list : ListReads (token :: rest)) : ArgumentsReads (token :: rest) := by
  by_cases closes : token.kind = .symbol .closeParen
  · refine Outcome.congr (q := fun c => ⟨.ok [],c⟩) (.stay .none) (fun c kind _ => ?_)
    rw [argumentsStep,if_pos (kind.trans closes)]
  · refine Outcome.congr (q := argumentList) (Reads.weaken list ?_ ?_) (fun c kind _ => ?_)
    · exact fun _ _ _ _ _ fits => fits.2
    · exact fun _ _ more ⟨ts,fits⟩ => ⟨more,ts,fits.2⟩
    · rw [argumentsStep,if_neg (kind ▸ closes)]

theorem levelReadsCall (named : token.kind = .name) (opens : second.kind = .symbol .openParen)
    (ends : Ends rest) (inner : ArgumentsReads rest) :
    LevelReads .primary (token :: second :: rest) := by
  let closing : Token := ⟨.symbol .closeParen,none,.start⟩
  have whole {tokens ts} (h : Arguments tokens ts) :
      Makes .primary (token :: second :: (tokens ++ [closing])) := ⟨_,.call named opens h rfl⟩
  have read : Reads (fun _ => True) Plain
      (fun passed last t => Operand .primary (token :: second :: passed) t ∧
        Stops .primary (token :: second :: passed) last.kind)
      (fun passed => Makes .primary (token :: second :: passed))
      (fun c => c.arguments.andThen (fun inner d =>
        (d.expect (.symbol .closeParen)).map (fun _ => Tree.call token.payload inner))) rest := by
    refine Reads.andThen inner ?_ ?_ ?_ ends
    · intro tokens _ more given
      obtain ⟨ts,h⟩ := given
      exact ⟨more ++ [closing],by simpa using whole h⟩
    · intro passed last ts h
      exact ⟨[closing],whole h⟩
    · intro passed last others ts _ later h
      refine Reads.expectLast later (by simp) (plainUnexpected _) (fun last next _ _ closes => ?_)
      exact ⟨.call named opens h closes,@stopsClosed (token :: second :: passed) _ last (by simp [closes])⟩
  obtain ⟨third,others,rfl⟩ := endsFilled ends
  refine Reads.pass (q := fun c => c.advance.arguments.andThen (fun inner d =>
    (d.expect (.symbol .closeParen)).map (fun _ => Tree.call token.payload inner)))
    (by simp [named]) ⟨_,whole .none⟩ ?_ (fun c same payload ahead => ?_)
  · exact Reads.pass (by simp [opens]) ⟨_,whole .none⟩ read (fun c _ _ _ => rfl)
  · rw [levelPrimary,primary,same.trans named]
    dsimp only
    rw [if_pos (ahead.trans opens),payload]

theorem levelReadsPrimary (ends : Ends (token :: rest))
    (inner : token.kind = .symbol .openParen → Ends rest → LevelReads .disjunction rest)
    (call : ∀ second others, rest = second :: others → token.kind = .name → Ends others →
      ArgumentsReads others) : LevelReads .primary (token :: rest) := by
  by_cases ended : token.kind = .finish
  · exact levelReadsRefused (fun c kind => by rw [primary,kind,ended])
  have behind := endsPast ends ended
  obtain ⟨second,others,rfl⟩ := endsFilled behind
  cases kind : token.kind with
  | finish => exact absurd kind ended
  | newline => exact levelReadsRefused (fun c same => by rw [primary,same,kind])
  | integer =>
    exact levelReadsLeaf ended (.integer kind) (by simp [kind]) (fun c same payload _ => by
      rw [primary,same,kind]
      simp only [payload])
  | string =>
    exact levelReadsLeaf ended (.string kind) (by simp [kind]) (fun c same payload _ => by
      rw [primary,same,kind]
      simp only [payload])
  | name =>
    by_cases opens : second.kind = .symbol .openParen
    · have more : second.kind ≠ .finish := by simp [opens]
      have past := endsPast behind more
      exact levelReadsCall kind opens past (call second others rfl kind past)
    · refine levelReadsLeaf ended (.name kind) (fun same => absurd same opens) ?_
      intro c same payload ahead
      rw [primary,same.trans kind]
      dsimp only
      rw [if_neg (ahead ▸ opens),payload]
  | symbol s =>
    by_cases truth : s = .trueWord
    · refine levelReadsLeaf ended (.truth (truth ▸ kind)) (by simp [kind]) (fun c same _ _ => ?_)
      rw [primary,same,kind,truth]
    by_cases falsity : s = .falseWord
    · refine levelReadsLeaf ended (.falsity (falsity ▸ kind)) (by simp [kind]) (fun c same _ _ => ?_)
      rw [primary,same,kind,falsity]
    by_cases paren : s = .openParen
    · exact levelReadsParen (paren ▸ kind) behind (inner (paren ▸ kind) behind)
    refine levelReadsRefused (fun c same => ?_)
    unfold primary
    split <;> simp_all

/- The recursion is that of the reader: on how much is ahead, and on one token list from looser
levels to tighter ones. -/
mutual
theorem levelReads (l : Level) (ahead : List Token) (ends : Ends ahead) : LevelReads l ahead := by
  match form : l.form with
  | .chain operators next =>
    have tighter := Level.rankChain form
    have bound := next.rankBound
    refine levelReadsChain form ends (levelReads next ahead ends) ?_
    intro passed token rest t same filled later
    have shorter := passedShorter same filled
    exact chainReads form (token :: rest) later
  | .sign operator next =>
    have tighter := Level.rankSign form
    have bound := next.rankBound
    obtain ⟨token,rest,same,shorter⟩ := endsShorter ends
    have whole := levelReads next ahead ends
    rw [same] at whole ⊢
    by_cases sign : token.kind = .symbol operator
    · have behind := endsPast (same ▸ ends) (by simp [sign])
      exact levelReadsSigned form sign behind (levelReads l rest behind)
    · exact levelReadsUnsigned form sign whole
  | .power =>
    have tighter := Level.rankPower form
    have base := levelReads .primary ahead ends
    rw [Level.formPower form]
    refine levelReadsPower ends base ?_
    intro passed token rest same later
    have shorter := behindShorter same
    exact levelReads .factor rest later
  | .primary =>
    obtain ⟨token,rest,same,shorter⟩ := endsShorter ends
    rw [Level.formPrimary form,same]
    refine levelReadsPrimary (same ▸ ends) (fun _ later => levelReads .disjunction rest later) ?_
    intro second others same' _ later
    have shortest : others.length < rest.length := by simp [same']
    have list := listOutcome others later
    obtain ⟨third,others,rfl⟩ := endsFilled later
    exact argumentsReads list
termination_by ahead.length * 12 + (10 - l.rank)
decreasing_by
  all_goals
    simp only [List.length_cons] at *
    have := l.rankBound
    have := Level.primary.rankBound
    omega
theorem chainReads {l next : Level} {operators left} (form : l.form = .chain operators next)
    (ahead : List Token) (ends : Ends ahead) : ChainReads l next operators left ahead := by
  obtain ⟨token,rest,same,shorter⟩ := endsShorter ends
  rw [same]
  by_cases goes : ∃ s ∈ operators, token.kind = .symbol s
  · obtain ⟨s,member,kind⟩ := goes
    have behind := endsPast (same ▸ ends) (by simp [kind])
    refine chainReadsStep form member kind behind (levelReads next rest behind) ?_
    intro passed second others t same' later
    have shortest := behindShorter same'
    exact chainReads form (second :: others) later
  · exact chainReadsStop (fun s member kind => goes ⟨s,member,kind⟩)
termination_by ahead.length * 12
decreasing_by
  · omega
  · simp only [List.length_cons]
    omega
theorem listOutcome (ahead : List Token) (ends : Ends ahead) : ListReads ahead := by
  refine listReads ends (levelReads .disjunction ahead ends) ?_
  intro passed token rest same later
  have shorter := behindShorter same
  exact listOutcome rest later
termination_by ahead.length * 12 + 10
decreasing_by
  · simp [Level.rank]
  · omega
end

end JutsuSyntax.Cursor
