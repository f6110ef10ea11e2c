import JutsuSyntax.Proofs.Program.Acceptance
import JutsuSyntax.Proofs.Tree.Shape

/-! Every tree that is read from tokens has the shape that its kinds promise, in all its nodes:
who takes children by their place finds what belongs there. -/
namespace JutsuSyntax

namespace Tree
variable {t u : Tree} {n : Nat}

def isHolder (t : Tree) : Bool := t.kind == .program || t.kind == .body

theorem kindPlain {kind : Kind} (same : t.kind = kind)
    (plain : (kind == .program || kind == .body) = false) : t.isHolder = false := by
  rw [isHolder,same,plain]

theorem statementPlain (statement : t.isStatement) : t.isHolder = false := by
  revert statement
  unfold isStatement isHolder
  split <;> simp_all

theorem rankedPlain (ranked : 0 < t.rank) : t.isHolder = false := by
  revert ranked
  unfold rank isHolder
  split <;> simp_all

theorem fitsPlain (h : t.fits) (define : t.kind ≠ .definition) (test : t.kind ≠ .conditional) :
    ∀ u ∈ t.children, u.isHolder = false := by
  unfold fits at h
  split at h <;> rename_i same
  · exact fun u member => statementPlain (List.all_eq_true.mp h u member)
  · exact fun u member => statementPlain (List.all_eq_true.mp h u member)
  · simp only [updates,Bool.and_eq_true,Bool.or_eq_true,beq_iff_eq] at h
    obtain ⟨target,value⟩ := h
    have first := kindPlain target rfl
    rcases value with marked | sum
    · simpa [same] using ⟨first,kindPlain marked rfl⟩
    · simpa [same] using ⟨first,kindPlain sum.1.1 rfl⟩
  · simpa [same] using kindPlain (beq_iff_eq.mp h) rfl
  · simpa [same] using kindPlain (beq_iff_eq.mp h) rfl
  · intro u member
    exact kindPlain (beq_iff_eq.mp (List.all_eq_true.mp h u member)) rfl
  · exact absurd ‹_› test
  · exact absurd ‹_› test
  · simp only [Bool.and_eq_true,decide_eq_true_eq] at h
    simpa [same] using And.intro (rankedPlain h.1.2) (rankedPlain h.2)
  · simp only [Bool.and_eq_true,decide_eq_true_eq] at h
    simpa [same] using rankedPlain h.2
  · simpa [same] using rankedPlain (of_decide_eq_true h)
  · exact absurd ‹_› define
  all_goals simp_all

theorem definitionFits (h : t.fits) (define : t.kind = .definition) :
    ∃ names inner, t.children = names ++ [inner] ∧ (∀ p ∈ names, p.kind = .identifier) ∧
      inner.kind = .body := by
  obtain ⟨kind,value,children⟩ := t
  cases (define : kind = _)
  cases value with
  | none => contradiction
  | some name =>
    simp only [fits,Bool.and_eq_true,List.all_eq_true,beq_iff_eq,Option.any_eq_true] at h
    obtain ⟨names,inner,last,body⟩ := h
    obtain ⟨front,rfl⟩ := List.getLast?_eq_some_iff.mp last
    rw [List.dropLast_concat] at names
    exact ⟨front,inner,rfl,names,body⟩

theorem conditionalFits (h : t.fits) (test : t.kind = .conditional) :
    ∃ condition inner, t.children = condition :: inner ∧ condition.kind = .expression ∧
      (inner = [] ∨ ∃ body, inner = [body] ∧ body.kind = .body) := by
  obtain ⟨kind,value,children⟩ := t
  cases (test : kind = _)
  unfold fits at h
  split at h <;> rename_i same <;> try contradiction
  · exact ⟨_,[],same,beq_iff_eq.mp h,.inl rfl⟩
  · simp only [Bool.and_eq_true,beq_iff_eq] at h
    exact ⟨_,_,same,h.1.1,.inr ⟨_,rfl,h.1.2⟩⟩

theorem singlePlace (place : [t][n]? = some u) : n = 0 ∧ t = u := by
  rw [List.getElem?_singleton] at place
  split at place
  · exact ⟨‹_›,Option.some.inj place⟩
  · contradiction

theorem fitsPlaces (h : t.fits) (place : t.children[n]? = some u) (holder : u.isHolder) :
    u.kind = .body ∧
      (t.kind = .definition ∧ n + 1 = t.children.length ∨ t.kind = .conditional ∧ n = 1) := by
  have other {kind : Kind} (same : u.kind = kind) (plain : (kind == .program || kind == .body) = false) :
      False := by
    rw [kindPlain same plain] at holder
    contradiction
  by_cases define : t.kind = .definition
  · obtain ⟨names,inner,same,plain,body⟩ := definitionFits h define
    rw [same] at place
    by_cases early : n < names.length
    · rw [List.getElem?_append_left early] at place
      exact (other (plain u (List.mem_of_getElem? place)) rfl).elim
    · rw [List.getElem?_append_right (Nat.le_of_not_lt early)] at place
      obtain ⟨last,rfl⟩ := singlePlace place
      refine ⟨body,.inl ⟨define,?_⟩⟩
      rw [same,List.length_append,List.length_singleton]
      omega
  by_cases test : t.kind = .conditional
  · obtain ⟨condition,inner,same,marked,rest⟩ := conditionalFits h test
    rw [same] at place
    cases n with
    | zero =>
      cases place
      exact (other marked rfl).elim
    | succ n =>
      rcases rest with rfl | ⟨body,rfl,kind⟩
      · contradiction
      · obtain ⟨last,rfl⟩ := singlePlace place
        exact ⟨kind,.inr ⟨test,by rw [last]⟩⟩
  · rw [fitsPlain h define test u (List.mem_of_getElem? place)] at holder
    contradiction

structure Shaped (t : Tree) : Prop where
  root : t.kind = .program
  fits : ∀ u ∈ t.nodes, u.fits
  inner : ∀ u ∈ t.nodes, ∀ child ∈ u.children, child.kind ≠ .program
  bodies : ∀ u ∈ t.nodes, ∀ n child, u.children[n]? = some child → child.kind = .body →
    u.kind = .definition ∧ n + 1 = u.children.length ∨ u.kind = .conditional ∧ n = 1
  binds : ∀ u ∈ t.nodes, u.kind ≠ .assignment → ∀ child ∈ u.children, child.binds

theorem shapedProgram {ts : List Tree} (h : ∀ t ∈ ts, Stands t) : Shaped (program ts) := by
  have proper : ProperBelow (program ts) := properStatements (.inl rfl) h
  refine ⟨rfl,fun u member => (proper u member).1,?_,?_,fun u member => (proper u member).2⟩
  · intro u member child among kind
    obtain ⟨n,place⟩ := List.mem_iff_getElem?.mp among
    have body := (fitsPlaces (proper u member).1 place (by simp [isHolder,kind])).1
    rw [kind] at body
    contradiction
  · intro u member n child place kind
    exact (fitsPlaces (proper u member).1 place (by simp [isHolder,kind])).2

end Tree

theorem parseShapes (tokens : List Token) (t : Tree) (accepted : parse tokens = .ok t) : t.Shaped := by
  obtain ⟨ts,rfl,lines⟩ := parseLines accepted
  exact Tree.shapedProgram (Grammar.linesStand lines)

def countdown : List Token :=
  [⟨.symbol .jutsuWord,none,⟨1,1⟩⟩,⟨.name,some "f",⟨1,7⟩⟩,⟨.symbol .openParen,none,⟨1,8⟩⟩,
   ⟨.name,some "n",⟨1,9⟩⟩,⟨.symbol .closeParen,none,⟨1,10⟩⟩,⟨.symbol .openBrace,none,⟨1,12⟩⟩,
   ⟨.symbol .ifWord,none,⟨2,1⟩⟩,⟨.name,some "n",⟨2,4⟩⟩,⟨.symbol .openBrace,none,⟨2,6⟩⟩,
   ⟨.name,some "n",⟨3,1⟩⟩,⟨.symbol .minusAssign,none,⟨3,3⟩⟩,⟨.integer,some "1",⟨3,6⟩⟩,
   ⟨.symbol .orWord,none,⟨3,8⟩⟩,⟨.integer,some "2",⟨3,11⟩⟩,⟨.symbol .printWord,none,⟨4,1⟩⟩,
   ⟨.name,some "f",⟨4,7⟩⟩,⟨.symbol .openParen,none,⟨4,8⟩⟩,⟨.name,some "n",⟨4,9⟩⟩,
   ⟨.symbol .closeParen,none,⟨4,10⟩⟩,⟨.symbol .closeBrace,none,⟨5,1⟩⟩,
   ⟨.symbol .closeBrace,none,⟨6,1⟩⟩,⟨.newline,none,⟨6,2⟩⟩]

def countdownTree : Tree :=
  let n := Tree.identifier "n"
  let step := Tree.assignment n
    (.binary "-" n (.binary "or" (.integer "1") (.integer "2")))
  let call := Tree.call "print" [.expression (.call "f" [.expression n])]
  .program [.definition "f" ["n"] [.conditional (.expression n) [step,call]]]

theorem countdownShaped : parse countdown = .ok countdownTree ∧ countdownTree.Shaped := by
  have accepted : parse countdown = .ok countdownTree := by decide +kernel
  exact ⟨accepted,parseShapes countdown countdownTree accepted⟩

end JutsuSyntax
