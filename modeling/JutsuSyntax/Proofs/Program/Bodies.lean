import JutsuSyntax.Proofs.Program.Acceptance
import Mathlib.Data.List.Chain

/-! Bodies and programs. Statements that are each a program of their own make the same children of
a body, one right behind the other or on lines of their own, as they make of a program. -/
namespace JutsuSyntax

namespace Grammar
variable {tokens others lines : List Token} {t : Tree} {ts : List Tree}

theorem blankStatements (newlines : ∀ x ∈ lines, x.kind = .newline) (rest : Statements others ts) :
    Statements (lines ++ others) ts := by
  induction lines with
  | nil => exact rest
  | cons newline lines ih =>
    obtain ⟨kind,newlines⟩ := List.forall_mem_cons.mp newlines
    exact .blank kind (ih newlines)

theorem blankLines (newlines : ∀ x ∈ lines, x.kind = .newline) (rest : Lines others ts) :
    Lines (lines ++ others) ts := by
  induction lines with
  | nil => exact rest
  | cons newline lines ih =>
    obtain ⟨kind,newlines⟩ := List.forall_mem_cons.mp newlines
    exact .blank kind (ih newlines)

theorem linesBlank (h : Lines tokens []) : ∀ x ∈ tokens, x.kind = .newline := by
  generalize none : ([] : List Tree) = ts at h
  induction h with
  | none => exact List.forall_mem_nil _
  | blank kind rest ih => exact List.forall_mem_cons.mpr ⟨kind,ih none⟩
  | last | line => cases none

theorem linesOne (h : Lines tokens [t]) (begins : ∀ first ∈ tokens.head?, first.kind ≠ .newline)
    (ends : ∀ last ∈ tokens.getLast?, last.kind ≠ .newline) : Statement tokens t := by
  cases h with
  | last only => exact only
  | blank kind rest => exact absurd kind (begins _ rfl)
  | @line tokens newline others _ _ first kind rest =>
    have blank : ∀ x ∈ newline :: others, x.kind = .newline :=
      List.forall_mem_cons.mpr ⟨kind,linesBlank rest⟩
    obtain ⟨last,same⟩ := Option.ne_none_iff_exists'.mp (mt List.getLast?_eq_none_iff.mp
      (List.cons_ne_nil newline others))
    have behind : (tokens ++ newline :: others).getLast? = some last := by
      rw [List.getLast?_append,same]
      rfl
    exact absurd (blank last (List.mem_of_getLast? same)) (ends last behind)

end Grammar

structure Segment where
  tokens : List Token
  statement : Tree
  newlines : List Token

namespace Segment
open Grammar

variable {s next : Segment} {segments : List Segment}

def written (s : Segment) : List Token := s.tokens ++ s.newlines

structure Alone (s : Segment) : Prop where
  accepted : parse s.tokens = .ok (Tree.program [s.statement])
  unended : ∀ x ∈ s.tokens, x.kind ≠ .finish
  begins : ∀ first ∈ s.tokens.head?, first.kind ≠ .newline
  ends : ∀ last ∈ s.tokens.getLast?, last.kind ≠ .newline
  newlines : ∀ x ∈ s.newlines, x.kind = .newline

def Parted (s next : Segment) : Prop :=
  s.newlines = [] → ∀ first ∈ next.tokens.head?,
    first.kind ≠ .symbol .minus ∧ first.kind ≠ .symbol .openParen

def Lined (s _next : Segment) : Prop := s.newlines ≠ []

theorem Alone.stands (alone : s.Alone) : Statement s.tokens s.statement := by
  obtain ⟨ts,same,lines⟩ := parseLines alone.accepted
  rw [takeWhole alone.unended] at lines
  obtain rfl : [s.statement] = ts := congrArg Tree.children same
  exact linesOne lines alone.begins alone.ends

theorem partedApart (alone : ∀ x ∈ segments, x.Alone) (newlines : ∀ x ∈ s.newlines, x.kind = .newline)
    (parted : ∀ next ∈ segments.head?, s.Parted next) :
    Separate s.tokens (s.newlines ++ segments.flatMap written) := by
  cases lined : s.newlines with
  | cons newline lines =>
    have kind := newlines newline (lined ▸ List.mem_cons_self)
    exact separateCons.mpr (apartOther (by simp [kind]) (by simp [kind]))
  | nil =>
    cases segments with
    | nil => exact separateNil
    | cons next segments =>
      obtain ⟨first,others,same,_⟩ := statementOpens (alone next List.mem_cons_self).stands
      obtain ⟨minus,paren⟩ := parted next rfl lined first (by rw [same]; rfl)
      rw [List.flatMap_cons,written,same]
      exact separateCons.mpr (apartOther minus paren)

theorem segmentStatements (alone : ∀ s ∈ segments, s.Alone) (parted : segments.IsChain Parted) :
    Statements (segments.flatMap written) (segments.map statement) := by
  induction segments with
  | nil => exact .none
  | cons s segments ih =>
    obtain ⟨first,alone⟩ := List.forall_mem_cons.mp alone
    obtain ⟨next,parted⟩ := List.isChain_cons.mp parted
    rw [List.flatMap_cons,written,List.append_assoc]
    refine .more first.stands (partedApart alone first.newlines next) ?_
    exact blankStatements first.newlines (ih alone parted)

theorem segmentLines (alone : ∀ s ∈ segments, s.Alone) (lined : segments.IsChain Lined) :
    Lines (segments.flatMap written) (segments.map statement) := by
  induction segments with
  | nil => exact .none
  | cons s segments ih =>
    obtain ⟨first,alone⟩ := List.forall_mem_cons.mp alone
    obtain ⟨next,lined⟩ := List.isChain_cons.mp lined
    have rest := ih alone lined
    rw [List.flatMap_cons,written,List.append_assoc]
    cases same : s.newlines with
    | nil =>
      cases segments with
      | nil => simpa using Lines.last first.stands
      | cons other segments => exact absurd same (next other rfl)
    | cons newline lines =>
      obtain ⟨kind,blank⟩ := List.forall_mem_cons.mp (same ▸ first.newlines)
      exact .line first.stands kind (blankLines blank rest)

end Segment

structure Frame where
  keyword : Token
  name : Token
  openParen : Token
  closeParen : Token
  openBrace : Token
  closeBrace : Token
  defines : keyword.kind = .symbol .jutsuWord
  named : name.kind = .name
  lists : openParen.kind = .symbol .openParen
  listed : closeParen.kind = .symbol .closeParen
  opens : openBrace.kind = .symbol .openBrace
  closes : closeBrace.kind = .symbol .closeBrace

namespace Frame

def around (frame : Frame) (inner : List Token) : List Token :=
  frame.keyword :: frame.name :: frame.openParen :: frame.closeParen :: frame.openBrace ::
    (inner ++ [frame.closeBrace])

theorem aroundStatement (frame : Frame) {inner : List Token} {ts : List Tree}
    (statements : Grammar.Statements inner ts) :
    Grammar.Statement (frame.around inner) (Tree.definition frame.name.payload [] ts) :=
  .definition frame.defines frame.named frame.lists .none frame.listed
    (.braces frame.opens statements frame.closes)

end Frame

theorem bodyAgrees (segments : List Segment) (alone : ∀ s ∈ segments, s.Alone) :
    (segments.IsChain Segment.Parted → ∀ frame : Frame,
      parse (frame.around (segments.flatMap Segment.written)) = .ok (Tree.program
        [Tree.definition frame.name.payload [] (segments.map Segment.statement)])) ∧
    (segments.IsChain Segment.Lined → parse (segments.flatMap Segment.written) =
      .ok (Tree.program (segments.map Segment.statement))) := by
  constructor
  · intro parted frame
    have inner := Segment.segmentStatements alone parted
    exact wholeParse (.last (frame.aroundStatement inner))
  · intro lined
    exact wholeParse (Segment.segmentLines alone lined)

def emptyFrame : Frame where
  keyword := ⟨.symbol .jutsuWord,none,⟨1,1⟩⟩
  name := ⟨.name,some "g",⟨1,7⟩⟩
  openParen := ⟨.symbol .openParen,none,⟨1,8⟩⟩
  closeParen := ⟨.symbol .closeParen,none,⟨1,9⟩⟩
  openBrace := ⟨.symbol .openBrace,none,⟨1,11⟩⟩
  closeBrace := ⟨.symbol .closeBrace,none,⟨4,3⟩⟩
  defines := rfl
  named := rfl
  lists := rfl
  listed := rfl
  opens := rfl
  closes := rfl

def abreast : List Segment :=
  [⟨[⟨.name,some "x",⟨2,1⟩⟩,⟨.symbol .assign,none,⟨2,3⟩⟩,⟨.integer,some "1",⟨2,5⟩⟩],
    Tree.assignment (Tree.identifier "x") (Tree.expression (Tree.integer "1")),[]⟩,
   ⟨[⟨.symbol .ifWord,none,⟨2,7⟩⟩,⟨.name,some "x",⟨2,10⟩⟩,⟨.symbol .openBrace,none,⟨2,12⟩⟩,
      ⟨.name,some "y",⟨2,14⟩⟩,⟨.symbol .closeBrace,none,⟨2,16⟩⟩],
    Tree.conditional (Tree.expression (Tree.identifier "x"))
      [Tree.expression (Tree.identifier "y")],[]⟩,
   ⟨[⟨.symbol .printWord,none,⟨2,18⟩⟩,⟨.name,some "x",⟨2,24⟩⟩],
    Tree.call "print" [Tree.expression (Tree.identifier "x")],
    [⟨.newline,none,⟨2,25⟩⟩,⟨.newline,none,⟨3,1⟩⟩]⟩,
   ⟨[⟨.symbol .minus,none,⟨4,1⟩⟩,⟨.integer,some "1",⟨4,2⟩⟩],
    Tree.expression (Tree.unary "-" (Tree.integer "1")),[]⟩]

def Segment.broken (s : Segment) : Segment := {s with newlines := [⟨.newline,none,⟨1,1⟩⟩]}

theorem abreastAgrees : (∀ s ∈ abreast, s.Alone) ∧
    (∀ s ∈ abreast.map Segment.broken, s.Alone) ∧
    parse (emptyFrame.around (abreast.flatMap Segment.written)) =
      .ok (Tree.program [Tree.definition "g" [] (abreast.map Segment.statement)]) ∧
    parse ((abreast.map Segment.broken).flatMap Segment.written) =
      .ok (Tree.program (abreast.map Segment.statement)) := by
  have alone : ∀ s ∈ abreast, s.Alone := by
    simp only [abreast,List.forall_mem_cons]
    refine ⟨?_,?_,?_,?_,nofun⟩
    all_goals
      exact ⟨by decide +kernel,by simp,by simp,by simp,by simp⟩
  have broken : ∀ s ∈ abreast.map Segment.broken, s.Alone := by
    intro s member
    obtain ⟨whole,inside,rfl⟩ := List.mem_map.mp member
    exact {alone whole inside with newlines := by simp [Segment.broken]}
  have parted : abreast.IsChain Segment.Parted := by
    simp [abreast,Segment.Parted]
  have lined : (abreast.map Segment.broken).IsChain Segment.Lined := by
    simp [abreast,Segment.broken,Segment.Lined]
  have same : (abreast.map Segment.broken).map Segment.statement = abreast.map Segment.statement := rfl
  exact ⟨alone,broken,(bodyAgrees abreast alone).1 parted emptyFrame,
    same ▸ (bodyAgrees _ broken).2 lined⟩

end JutsuSyntax
