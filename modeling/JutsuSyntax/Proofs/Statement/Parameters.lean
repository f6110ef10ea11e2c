import JutsuSyntax.Grammar
import JutsuSyntax.Statement.Parameters

/-! A run of names and commas passes the judgement at its end exactly if the grammar makes a
parameter list of it. -/
namespace JutsuSyntax
open Grammar (Parameters)

namespace Tally
variable {t : Tally} {token : Token} {run : List Token} {names : List String}

theorem addName (kind : token.kind = .name) : t.add token =
    ⟨t.names ++ [token.payload],t.commas,t.alternating && t.names.length == t.commas⟩ :=
  if_pos kind

theorem addComma (kind : token.kind = .symbol .comma) : t.add token =
    ⟨t.names,t.commas + 1,t.alternating && t.commas + 1 == t.names.length⟩ :=
  if_neg (by simp [kind])

theorem alternatingBefore (h : (run.foldl add t).alternating) : t.alternating := by
  induction run generalizing t with
  | nil => exact h
  | cons token run ih =>
    have added := ih h
    unfold add at added
    split at added
    · exact (Bool.and_eq_true_iff.mp added).1
    · exact (Bool.and_eq_true_iff.mp added).1

def Continues (run : List Token) (names : List String) : Prop :=
  run = [] ∧ names = [] ∨ ∃ comma rest, run = comma :: rest ∧ comma.kind = .symbol .comma ∧
    Parameters rest names ∧ names ≠ []

theorem Continues.behind (kind : token.kind = .name) (h : Continues run names) :
    Parameters (token :: run) (token.payload :: names) := by
  rcases h with ⟨rfl,rfl⟩ | ⟨comma,rest,rfl,separator,later,filled⟩
  · exact .one kind
  · obtain ⟨name,names,rfl⟩ := List.exists_cons_of_ne_nil filled
    exact .more kind separator later

theorem foldSound (only : ∀ token ∈ run, Cursor.isParameterToken token)
    (alternating : (run.foldl add t).alternating) (equal : (run.foldl add t).balanced) :
    (t.names.length = t.commas → run = [] ∧ t.names = [] ∨ ∃ names, names ≠ [] ∧
      Parameters run names ∧ (run.foldl add t).names = t.names ++ names) ∧
    (t.names.length = t.commas + 1 → ∃ names, Continues run names ∧
      (run.foldl add t).names = t.names ++ names) := by
  induction run generalizing t with
  | nil =>
    refine ⟨fun even => .inl ⟨rfl,?_⟩,fun _ => ⟨[],.inl ⟨rfl,rfl⟩,by simp⟩⟩
    cases names : t.names with
    | nil => rfl
    | cons name others =>
      simp [balanced,names] at equal even
      omega
  | cons token run ih =>
    obtain ⟨even,odd⟩ := ih (fun x member => only x (List.mem_cons_of_mem _ member)) alternating equal
    have step : (t.add token).alternating := alternatingBefore alternating
    have parameter := only token List.mem_cons_self
    simp only [Cursor.isParameterToken,Bool.or_eq_true,beq_iff_eq] at parameter
    rcases parameter with kind | kind
    · rw [List.foldl_cons,addName kind] at *
      dsimp only at step odd
      simp only [Bool.and_eq_true,beq_iff_eq,List.length_append,List.length_singleton] at step odd
      refine ⟨fun _ => .inr ?_,fun more => by omega⟩
      obtain ⟨names,continues,same⟩ := odd (by omega)
      exact ⟨token.payload :: names,List.cons_ne_nil _ _,continues.behind kind,by simp [same]⟩
    · rw [List.foldl_cons,addComma kind] at *
      dsimp only at step even
      simp only [Bool.and_eq_true,beq_iff_eq] at step
      refine ⟨fun same => by omega,fun more => ?_⟩
      rcases even more with ⟨_,none⟩ | ⟨names,filled,parameters,same⟩
      · simp [none] at more
      · exact ⟨names,.inr ⟨token,run,rfl,kind,parameters,filled⟩,same⟩

theorem ofRunSound (only : ∀ token ∈ run, Cursor.isParameterToken token)
    (alternating : (ofRun run).alternating) (equal : (ofRun run).balanced) :
    Parameters run (ofRun run).names := by
  rcases (foldSound only alternating equal).1 rfl with ⟨rfl,_⟩ | ⟨names,_,parameters,same⟩
  · exact .none
  · rw [ofRun,same]
    exact parameters

theorem foldComplete (h : Parameters run names) (filled : names ≠ []) (even : t.names.length = t.commas)
    (alternating : t.alternating) : run.foldl add t =
      ⟨t.names ++ names,t.commas + names.length - 1,true⟩ := by
  induction h generalizing t with
  | none => contradiction
  | one kind => simp [addName kind,even,alternating]
  | more kind separator rest ih =>
    rw [List.foldl_cons,List.foldl_cons,addName kind,addComma separator,
      ih (List.cons_ne_nil _ _) (by simp [even]) (by simp [even,alternating])]
    simp
    omega

theorem ofRunComplete (h : Parameters run names) :
    (ofRun run).alternating ∧ (ofRun run).balanced ∧ (ofRun run).names = names := by
  cases names with
  | nil =>
    cases h
    exact ⟨rfl,rfl,rfl⟩
  | cons name names =>
    rw [ofRun,foldComplete h (List.cons_ne_nil _ _) rfl rfl]
    exact ⟨rfl,by simp [balanced,empty],rfl⟩

theorem fitsIff (only : ∀ token ∈ run, Cursor.isParameterToken token) :
    ((ofRun run).alternating && (ofRun run).balanced) ↔ ∃ names, Parameters run names := by
  rw [Bool.and_eq_true]
  constructor
  · intro fits
    exact ⟨_,ofRunSound only fits.1 fits.2⟩
  · intro listed
    obtain ⟨names,listed⟩ := listed
    obtain ⟨alternating,balanced,_⟩ := ofRunComplete listed
    exact ⟨alternating,balanced⟩

theorem foldNames (run : List Token) (t : Tally) :
    (run.foldl add t).names = t.names ++ (run.filter (·.kind = .name)).map Token.payload := by
  induction run generalizing t with
  | nil => simp
  | cons token run ih =>
    rw [List.foldl_cons,ih]
    by_cases kind : token.kind = .name
    · simp [addName kind,kind]
    · simp [add,kind]

theorem foldCommas (only : ∀ token ∈ run, Cursor.isParameterToken token) (t : Tally) :
    (run.foldl add t).commas = t.commas + run.countP (·.kind = .symbol .comma) := by
  induction run generalizing t with
  | nil => rfl
  | cons token run ih =>
    obtain ⟨parameter,others⟩ := List.forall_mem_cons.mp only
    simp only [Cursor.isParameterToken,Bool.or_eq_true,beq_iff_eq] at parameter
    rw [List.foldl_cons,ih others]
    rcases parameter with kind | kind
    · simp [addName kind,kind]
    · simp [addComma kind,kind,Nat.add_assoc,Nat.add_comm]

theorem ofRunNames (run : List Token) :
    (ofRun run).names = (run.filter (·.kind = .name)).map Token.payload := foldNames run empty

theorem ofRunCommas (only : ∀ token ∈ run, Cursor.isParameterToken token) :
    (ofRun run).commas = run.countP (·.kind = .symbol .comma) :=
  (foldCommas only empty).trans (Nat.zero_add _)

end Tally

theorem Grammar.parametersOnly {run names} (h : Parameters run names) :
    ∀ token ∈ run, Cursor.isParameterToken token := by
  induction h with
  | none => simp
  | one kind => simp [Cursor.isParameterToken,kind]
  | more kind separator rest ih => simpa [Cursor.isParameterToken,kind,separator] using ih

namespace Cursor
variable {run rest : List Token} {bodies : Nat}

theorem parametersCut (only : ∀ x ∈ run, isParameterToken x)
    (ended : ∀ x ∈ rest.head?, isParameterToken x = false) :
    parameterRun ⟨run ++ rest,bodies⟩ = run ∧ pastParameters ⟨run ++ rest,bodies⟩ = ⟨rest,bodies⟩ := by
  rw [parameterRun,pastParameters,List.takeWhile_append_of_pos only,List.dropWhile_append_of_pos only]
  cases rest with
  | nil => simp
  | cons x rest =>
    have stop : ¬ isParameterToken x := by simp [ended x rfl]
    simp [List.takeWhile_cons_of_neg stop,List.dropWhile_cons_of_neg stop]

end Cursor
end JutsuSyntax
