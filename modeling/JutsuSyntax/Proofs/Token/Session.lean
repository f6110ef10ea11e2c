import JutsuSyntax.Proofs.Token.Joining

/-! Calling the scanner again. After its first call it stands at the end of the text or in front of a
character that cannot be read, and there every later call gives the same. -/
namespace JutsuSyntax
open Token (Piece firstSplits)

theorem Reply.sessionSettled {ε σ α : Type} {read : σ → Reply ε σ α} {state : σ} {result : Except ε α}
    (fixed : read state = ⟨result,state⟩) (calls : Nat) :
    Reply.session read calls state = List.replicate calls result := by
  induction calls with
  | zero => rfl
  | succ calls ih => rw [Reply.session,fixed,ih,List.replicate_succ]

inductive Halts (s : Scanner) : Reply LexError Scanner (List Token) → Prop where
  | ended {front depth} (words : ∀ x ∈ front, x.kind ≠ .finish) :
      Halts s ⟨.ok (front ++ [Token.finish (s.location.afterText s.rest)]),
        ⟨[],s.location.afterText s.rest,depth⟩⟩
  | stuck {c place} {stays : Scanner} (again : stays.scan = ⟨.error (.unreadable c place),stays⟩) :
      Halts s ⟨.error (.unreadable c place),stays⟩
  | opened {place depth} :
      Halts s ⟨.error (.unterminated place),⟨[],s.location.afterText s.rest,depth⟩⟩

theorem failHalts {s : Scanner} {c cs fault} (ahead : s.rest = c :: cs)
    (found : Piece.first c cs = .error fault) : Halts s (s.fail c fault) := by
  cases fault with
  | unreadable => exact .stuck (Scanner.scanError ahead found)
  | unterminated => exact .opened

theorem Halts.behind {s : Scanner} {c cs piece reply} (ahead : s.rest = c :: cs)
    (found : Piece.first c cs = .ok piece) (h : Halts (s.past piece) reply) :
    Halts s (reply.map (s.yield piece ++ ·)) := by
  have place := placePast ahead found
  cases h with
  | @ended front depth words =>
    have whole : ∀ x ∈ s.yield piece ++ front, x.kind ≠ .finish := by
      intro x member
      exact (List.mem_append.mp member).elim (yieldWords s (firstSplits.mp found) x) (words x)
    have halts := @Halts.ended s _ depth whole
    rw [← place,List.append_assoc] at halts
    exact halts
  | stuck again => exact .stuck again
  | @opened quote depth =>
    have halts := @Halts.opened s quote depth
    rw [← place] at halts
    exact halts

theorem scanHalts (s : Scanner) : Halts s s.scan := by
  induction s using Scanner.scanInduct with
  | ended s ahead =>
    rw [Scanner.scanNil ahead]
    obtain ⟨rest,place,depth⟩ := s
    obtain rfl : rest = [] := ahead
    exact @Halts.ended _ [] depth (List.forall_mem_nil _)
  | fails s c cs fault ahead found =>
    rw [Scanner.scanError ahead found]
    exact failHalts ahead found
  | passes s c cs piece ahead found ih =>
    rw [Scanner.scanOk ahead found]
    exact ih.behind ahead found

theorem endSettles (place : Location) (depth calls : Nat) :
    Reply.session Scanner.scan calls ⟨[],place,depth⟩ =
      List.replicate calls (.ok [Token.finish place]) :=
  Reply.sessionSettled (Scanner.scanNil rfl) calls

theorem callsSettle (text : String) (calls : Nat) :
    match tokenize text with
    | .ok tokens => ∃ front place, tokens = front ++ [Token.finish place] ∧
        (∀ x ∈ front, x.kind ≠ .finish) ∧
        Reply.session Scanner.scan (calls + 1) (.ofText text) =
          .ok tokens :: List.replicate calls (.ok [Token.finish place])
    | .error (.unreadable c place) => Reply.session Scanner.scan (calls + 1) (.ofText text) =
        List.replicate (calls + 1) (.error (.unreadable c place))
    | .error (.unterminated place) => Reply.session Scanner.scan (calls + 1) (.ofText text) =
        .error (.unterminated place) ::
          List.replicate calls (.ok [Token.finish (Location.behind text.toList)]) := by
  have place : Location.start.afterText text.toList = Location.behind text.toList :=
    Location.afterTextBehind [] text.toList
  have halts := scanHalts (.ofText text)
  rw [tokenize,Reply.session]
  generalize (Scanner.ofText text).scan = reply at halts
  cases halts with
  | @ended front depth words =>
    exact ⟨front,_,rfl,words,congrArg (_ :: ·) (endSettles _ depth calls)⟩
  | stuck again => exact congrArg (_ :: ·) (Reply.sessionSettled again calls)
  | @opened quote depth =>
    rw [← place]
    exact congrArg (_ :: ·) (endSettles _ depth calls)

end JutsuSyntax
