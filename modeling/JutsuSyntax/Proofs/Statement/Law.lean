import JutsuSyntax.Proofs.Expression.Law
import JutsuSyntax.Proofs.Program.Completeness

/-! What every way of putting productions together keeps holds of statements, bodies and whole
programs, if it holds of parameters and of statements that no keyword leads. -/
namespace JutsuSyntax.Cursor
open Token (Symbol)

variable {holds : (α : Type) → (Cursor → Parsed α) → Cursor → Prop}

namespace Law

theorem assigned (law : Law holds) (name : String) (c : Cursor) : holds Tree (Cursor.assigned name) c := by
  cases assigning : assigns c.kind with
  | true =>
    rcases assignsCases assigning with plain | ⟨s,operator,kind,applies⟩
    · refine law.passSymbol plain (law.expression c.advance) (fun d same _ => ?_)
      exact assignedPlainly (same.trans plain) name
    · refine law.passSymbol kind (law.map (law.level .disjunction c.advance)
        (Tree.binary operator.spelling (Tree.identifier name))) (fun d same _ => ?_)
      exact assignedAugmented (same.trans kind) applies name
  | false =>
    refine law.congr (law.refuse (f := ParseError.unexpected (.symbol .assign)) (by simp)) ?_
    intro d same _
    exact assignedPlain (same ▸ assigning) name

theorem assignment (law : Law holds) (c : Cursor) : holds Tree Cursor.assignment c := by
  refine law.andThen (law.expect (by simp) (by simp)) (fun name _ => ?_)
  exact law.map (law.assigned name.payload _) (Tree.assignment (Tree.identifier name.payload))

theorem led (law : Law holds) (keyword : Symbol) (c : Cursor) : holds Tree (Cursor.led keyword) c :=
  law.andThen (law.expectSymbol keyword) (fun _ _ => law.expression _)

theorem header (law : Law holds)
    (parameters : ∀ function d, holds (List String) (Cursor.parameters function) d) (c : Cursor) :
    holds Header Cursor.header c := by
  refine law.andThen (law.expectSymbol .jutsuWord) (fun _ _ => ?_)
  refine law.andThen (law.expect (by simp) (by simp)) (fun name _ => ?_)
  refine law.andThen (law.expectSymbol .openParen) (fun _ _ => ?_)
  refine law.andThen (parameters name.payload _) (fun names _ => ?_)
  exact law.map (law.expectSymbol .closeParen) (fun _ => (⟨name.payload,names⟩ : Header))

end Law

structure StatementLaw (holds : (α : Type) → (Cursor → Parsed α) → Cursor → Prop) : Prop
    extends Law holds where
  parameters (function : String) (c : Cursor) : holds (List String) (Cursor.parameters function) c
  unled {c} (filled : c.atBlank = false) (keyless : ∀ d : Cursor, d.kind = c.kind → d.sentence = d.unled) :
    holds Tree Cursor.unled c
  inBody {α c} {p : Cursor → Parsed α} (h : holds α p c.enterBody) :
    holds α (fun c => leaveBody (p c.enterBody)) c
  skip {α c} {p : Cursor → Parsed α} (newline : c.kind = .newline)
    (skips : ∀ d : Cursor, d.kind = .newline → p d = p d.advance) (h : holds α p c.advance) : holds α p c

namespace StatementLaw
variable {c : Cursor}

theorem bodied {α : Type} {first : Cursor → Parsed α} (law : StatementLaw holds)
    (begun : holds α first c) (consumes : Consumes 1 c (first c)) (f : α → List Tree → Tree)
    (go : ∀ d : Cursor, d.left < c.left → holds (List Tree) Cursor.body d) :
    holds Tree (fun c => (first c).andThen (fun a d => d.body.map (f a))) c := by
  refine law.andThen begun (fun a same => law.map (go _ ?_) (f a))
  exact Nat.lt_of_succ_le (consumes.2 a same)

theorem sentenceStep (law : StatementLaw holds) (filled : c.atBlank = false)
    (go : ∀ d : Cursor, d.left < c.left → holds (List Tree) Cursor.body d) :
    holds Tree Cursor.sentence c := by
  by_cases define : c.kind = .symbol .jutsuWord
  · refine law.congr (law.bodied (law.header law.parameters c) (headerConsumes c)
      (fun head => Tree.definition head.name head.parameters) go) (fun d same _ => ?_)
    rw [Cursor.sentenceStep,same,define]
  by_cases test : c.kind = .symbol .ifWord
  · refine law.congr (law.bodied (law.led .ifWord c) (ledConsumes .ifWord c) Tree.conditional go) ?_
    intro d same _
    rw [Cursor.sentenceStep,same,test]
  by_cases release : c.kind = .symbol .releaseWord
  · refine law.congr (law.map (law.led .releaseWord c) Tree.returned) (fun d same _ => ?_)
    rw [Cursor.sentenceStep,same,release]
  by_cases print : c.kind = .symbol .printWord
  · refine law.congr (law.map (law.led .printWord c) (fun t => Tree.call "print" [t])) ?_
    intro d same _
    rw [Cursor.sentenceStep,same,print]
  have keyless (d : Cursor) (same : d.kind = c.kind) : d.sentence = d.unled := by
    rw [Cursor.sentenceStep,same]
    split <;> trivial
  exact law.congr (law.unled filled keyless) (fun d same _ => keyless d same)

theorem bodyStep (law : StatementLaw holds)
    (go : ∀ d : Cursor, d.left < c.left → holds (List Tree) Cursor.bodyStatements d) :
    holds (List Tree) Cursor.body c := by
  rw [funext Cursor.bodyStep]
  refine law.andThen (law.expectSymbol .openBrace) (fun opening same => ?_)
  have shorter := (Cursor.expectSymbol .openBrace c).2 opening same
  refine law.andThen (law.inBody (go (enterBody _) (Nat.lt_of_succ_le shorter))) (fun ts _ => ?_)
  exact law.map (law.expectSymbol .closeBrace) (fun _ => ts)

theorem innerStep (law : StatementLaw holds) (filled : c.atBlank = false)
    (first : holds Tree Cursor.sentence c)
    (go : ∀ d : Cursor, d.left < c.left → holds (List Tree) Cursor.bodyStatements d) :
    holds (List Tree) Cursor.bodyStatements c := by
  have statements : holds (List Tree)
      (fun c => c.sentence.andThen (fun t d => d.bodyStatements.map (t :: ·))) c := by
    refine law.andThen first (fun t same => law.map (go _ ?_) (t :: ·))
    exact Nat.lt_of_succ_le ((sentenceConsumes c).2 t same)
  refine law.congr statements (fun d same _ => ?_)
  rw [atBlank] at filled
  rw [bodyStatementsStep,same]
  split <;> simp_all [pastNewlineStatements]

theorem innerEnds (law : StatementLaw holds) (ends : c.kind = .symbol .closeBrace ∨ c.kind = .finish) :
    holds (List Tree) Cursor.bodyStatements c := by
  refine law.congr (law.stay []) (fun d same _ => ?_)
  rcases ends with ends | ends <;> rw [bodyStatementsStep,same,ends]

mutual
theorem sentence (law : StatementLaw holds) (c : Cursor) (filled : c.atBlank = false) :
    holds Tree Cursor.sentence c :=
  law.sentenceStep filled (fun d _ => body law d)
termination_by c.left * 2
theorem body (law : StatementLaw holds) (c : Cursor) : holds (List Tree) Cursor.body c :=
  law.bodyStep (fun d _ => bodyStatements law d)
termination_by c.left * 2
theorem bodyStatements (law : StatementLaw holds) (c : Cursor) :
    holds (List Tree) Cursor.bodyStatements c := by
  by_cases ends : c.kind = .symbol .closeBrace ∨ c.kind = .finish
  · exact law.innerEnds ends
  by_cases newline : c.kind = .newline
  · have shorter := advanceShortens (by simp [newline] : c.kind ≠ .finish)
    refine law.skip newline (fun d kind => ?_) (bodyStatements law c.advance)
    rw [bodyStatementsStep,kind]
  have filled : c.atBlank = false := by
    unfold atBlank
    split <;> simp_all
  exact law.innerStep filled (sentence law c filled) (fun d _ => bodyStatements law d)
termination_by c.left * 2 + 1
end

theorem statement (law : StatementLaw holds) (c : Cursor) : holds (Option Tree) Cursor.statement c := by
  have blanks (d : Cursor) (same : d.kind = c.kind) : d.atBlank = c.atBlank := by
    rw [atBlank,atBlank,same]
  cases blank : c.atBlank with
  | true =>
    refine law.congr (law.stay none) (fun d same _ => ?_)
    rw [Cursor.statement,if_pos ((blanks d same).trans blank)]
  | false =>
    refine law.congr (law.map (law.sentence c blank) some) (fun d same _ => ?_)
    rw [Cursor.statement,if_neg (by simp [blanks d same,blank])]

theorem line (law : StatementLaw holds) (line : Option Tree)
    (go : c.kind = .newline ∨ c.kind = .finish → holds (List Tree) Cursor.statements c) :
    holds (List Tree) (fun d => if d.kind = .finish then ⟨.ok line.toList,d⟩
      else (d.expect .newline).andThen (fun _ e => e.statements.map (line.toList ++ ·))) c := by
  by_cases ends : c.kind = .newline ∨ c.kind = .finish
  · refine law.congr (law.map (go ends) (line.toList ++ ·)) (fun d same _ => ?_)
    exact statementsBehind (same ▸ ends) line
  · obtain ⟨newline,more⟩ := not_or.mp ends
    refine law.congr (law.refuse (f := ParseError.unexpected .newline) (by simp)) (fun d same _ => ?_)
    rw [if_neg (same ▸ more),expect,if_neg (same ▸ newline)]
    rfl

theorem statementsEnd (law : StatementLaw holds) (ended : c.kind = .finish) :
    holds (List Tree) Cursor.statements c :=
  law.congr (law.stay []) (fun _ same _ => statementsFinish (same.trans ended))

theorem statements (law : StatementLaw holds) (c : Cursor) : holds (List Tree) Cursor.statements c := by
  by_cases ended : c.kind = .finish
  · exact law.statementsEnd ended
  have never := (statementConsumes c).1
  refine law.congr (law.andThen (law.statement c) (fun line _ => law.line line ?_)) (fun d same _ => ?_)
  · intro ends
    rcases ends with newline | ended
    · have shorter := advanceShortens (by simp [newline] : c.statement.after.kind ≠ .finish)
      exact law.skip newline (fun _ => statementsNewline) (statements law c.statement.after.advance)
    · exact law.statementsEnd ended
  · rw [statementsStep,if_neg (same ▸ ended)]
termination_by c.left

end StatementLaw
end JutsuSyntax.Cursor
