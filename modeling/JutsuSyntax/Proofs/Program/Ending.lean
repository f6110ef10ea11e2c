import JutsuSyntax.Proofs.Program.Bodies
import JutsuSyntax.Proofs.Program.Brackets
import JutsuSyntax.Proofs.Token.Failing

/-! The end of a program. A newline behind a text makes no program of what is none, and of a program
no other one: no statement ends in a newline, and lines without a statement may end a program. -/
namespace JutsuSyntax

namespace Grammar
variable {tokens front lines before after : List Token} {newline : Token} {t : Tree} {ts : List Tree}

theorem Enclosed.closes (h : Enclosed before after) : ∃ closing ∈ after, ∃ s, closing.kind = .symbol s := by
  cases h with
  | @pair outer opening inner inner' closing rest s close opens pairs inside closes =>
    exact ⟨closing,List.mem_append_right inner' List.mem_cons_self,close,closes⟩

theorem statementUnbroken (h : Statement (front ++ [newline]) t) : newline.kind ≠ .newline := by
  intro kind
  obtain ⟨closing,member,s,closes⟩ := (statementEncloses h kind rfl).closes
  rw [List.mem_singleton.mp member,kind] at closes
  contradiction

theorem linesOnward (newlines : ∀ x ∈ lines, x.kind = .newline) (h : Lines front ts) :
    Lines (front ++ lines) ts := by
  induction h with
  | none => simpa using blankLines newlines .none
  | @last tokens t only =>
    cases lines with
    | nil => simpa using Lines.last only
    | cons newline lines =>
      obtain ⟨kind,newlines⟩ := List.forall_mem_cons.mp newlines
      exact .line only kind (by simpa using blankLines newlines .none)
  | blank kind rest ih => exact .blank kind ih
  | line first kind rest ih =>
    rw [List.append_assoc]
    exact .line first kind ih

theorem linesNothing (h : Lines [] ts) : ts = [] := by
  generalize same : ([] : List Token) = tokens at h
  cases h with
  | none => rfl
  | last only => exact absurd same.symm (statementFilled only)
  | blank kind rest => contradiction
  | line first kind rest => simp at same

theorem linesShortened (kind : newline.kind = .newline) (h : Lines (front ++ [newline]) ts) :
    Lines front ts := by
  generalize same : front ++ [newline] = tokens at h
  induction h generalizing front with
  | none => simp at same
  | last only =>
    subst same
    exact absurd kind (statementUnbroken only)
  | blank first rest ih =>
    cases front with
    | nil =>
      cases same
      exact rest
    | cons x front =>
      obtain ⟨rfl,behind⟩ := List.cons.inj same
      exact .blank first (ih behind)
  | @line tokens x others t ts first blank rest ih =>
    -- The last newline ends this line, or stands among the lines behind it.
    rcases List.eq_nil_or_concat others with rfl | ⟨more,last,rfl⟩
    · obtain ⟨rfl,_⟩ := List.append_inj' same rfl
      rw [linesNothing rest]
      exact .last first
    · rw [List.concat_eq_append,← List.cons_append,← List.append_assoc] at same
      obtain ⟨rfl,last⟩ := List.append_inj' same rfl
      cases last
      exact .line first blank (ih (List.concat_eq_append).symm)

theorem linesTrailing (newlines : ∀ x ∈ lines, x.kind = .newline) :
    Lines (front ++ lines) ts ↔ Lines front ts := by
  refine ⟨fun given => ?_,linesOnward newlines⟩
  induction lines generalizing front with
  | nil => simpa using given
  | cons newline lines ih =>
    obtain ⟨kind,newlines⟩ := List.forall_mem_cons.mp newlines
    rw [List.append_cons] at given
    exact linesShortened kind (ih newlines given)

end Grammar

variable {front : List Token} {last : Token} {t : Tree}

theorem parseEnded (unended : ∀ x ∈ front, x.kind ≠ .finish) (ended : last.kind = .finish) :
    parse (front ++ [last]) = .ok t ↔ Grammar.Program front t := by
  have taken : (front ++ [last]).takeWhile Token.isWord = front := takeBefore unended ended
  constructor
  · intro accepted
    have lines := parseLines accepted
    rwa [taken] at lines
  · intro given
    obtain ⟨ts,rfl,lines⟩ := given
    exact linesParse (by rwa [taken])

theorem parseTextOk {text : String} {tokens : List Token} (read : tokenize text = .ok tokens) :
    parseText text = .ok t ↔ parse tokens = .ok t := by
  cases result : parse tokens <;> simp [parseText,read,result]

theorem tokenizeNewline {text : String} {tokens : List Token} (read : tokenize text = .ok tokens) :
    ∃ front place lines later, tokens = front ++ [Token.finish place] ∧
      (∀ x ∈ front, x.kind ≠ .finish) ∧ (∀ x ∈ lines, x.kind = .newline) ∧
      tokenize (text ++ "\n") = .ok (front ++ lines ++ [Token.finish later]) := by
  obtain ⟨front,place,lines,same,words,newlines,onward⟩ := scanOnward (Scanner.ofText text) read
  refine ⟨front,place,lines,(Location.start.afterText text.toList).after '\n',same,words,newlines,?_⟩
  have whole : (text ++ "\n").toList = text.toList ++ '\n' :: [] := by simp
  have scanned := onward []
  rw [@Scanner.scanNil ⟨[],_,_⟩ rfl] at scanned
  rw [tokenize,Scanner.ofText,whole]
  exact congrArg Reply.result scanned

theorem finalNewline (text : String) (t : Tree) :
    parseText text = .ok t ↔ parseText (text ++ "\n") = .ok t := by
  cases read : tokenize text with
  | error e =>
    have again : tokenize (text ++ "\n") = .error e := tokenizeFailsLonger read (by decide)
    rw [parseText,parseText,read,again]
  | ok tokens =>
    obtain ⟨front,place,lines,later,rfl,words,newlines,longer⟩ := tokenizeNewline read
    have unended : ∀ x ∈ front ++ lines, x.kind ≠ .finish := by
      intro x member
      rcases List.mem_append.mp member with inside | behind
      · exact words x inside
      · simp [newlines x behind]
    rw [parseTextOk read,parseTextOk longer,parseEnded words rfl,parseEnded unended rfl]
    simp only [Grammar.Program,Grammar.linesTrailing newlines]

end JutsuSyntax
