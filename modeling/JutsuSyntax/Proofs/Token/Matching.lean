import JutsuSyntax.Proofs.Token.Pieces

/-! The longest match of a table of operators, whatever the order of the table: two entries of one
length that both begin a text are the same entry, so nothing depends on which is tried first. -/
namespace JutsuSyntax.Token.Symbol

structure Outgrows (table : List Symbol) (text : List Char) (s : Symbol) : Prop where
  listed : s ∈ table
  starts : s.characters <+: text
  longer : ∀ other ∈ table, other.characters <+: text → other ≠ s →
    other.characters.length < s.characters.length

variable {table others : List Symbol} {text : List Char} {s other : Symbol}

theorem prefixUnique (one : s.characters <+: text) (two : other.characters <+: text)
    (same : s.characters.length = other.characters.length) : s = other := by
  have within := List.prefix_of_prefix_length_le one two (Nat.le_of_eq same)
  exact charactersInjective (within.eq_of_length same)

theorem longestMatchOutgrows (found : longestMatch table text = some s) : Outgrows table text s := by
  obtain ⟨listed,starts⟩ := longestMatchSound found
  have starts := List.isPrefixOf_iff_prefix.mp starts
  refine ⟨listed,starts,fun other member begins differs => ?_⟩
  obtain ⟨k,best,atLeast⟩ := longestMatchFinds member (List.isPrefixOf_iff_prefix.mpr begins)
  cases found.symm.trans best
  exact Nat.lt_of_le_of_ne atLeast (fun same => differs (prefixUnique begins starts same))

theorem Outgrows.unique (one : Outgrows table text s) (two : Outgrows table text other) : s = other := by
  by_contra differs
  have shorter := one.longer other two.listed two.starts (Ne.symm differs)
  have longer := two.longer s one.listed one.starts differs
  omega

theorem longestMatchSome : longestMatch table text = some s ↔ Outgrows table text s := by
  constructor
  · exact longestMatchOutgrows
  · intro best
    obtain ⟨k,found,_⟩ := longestMatchFinds best.listed (List.isPrefixOf_iff_prefix.mpr best.starts)
    rw [found,(longestMatchOutgrows found).unique best]

theorem longestMatchNone :
    longestMatch table text = none ↔ ∀ s ∈ table, ¬ s.characters <+: text := by
  constructor
  · intro none s member starts
    obtain ⟨k,found,_⟩ := longestMatchFinds member (List.isPrefixOf_iff_prefix.mpr starts)
    exact absurd (none.symm.trans found) nofun
  · intro free
    cases found : longestMatch table text with
    | none => rfl
    | some s =>
      have best := longestMatchOutgrows found
      exact absurd best.starts (free s best.listed)

theorem Outgrows.permuted (best : Outgrows table text s) (same : table.Perm others) :
    Outgrows others text s :=
  ⟨same.mem_iff.mp best.listed,best.starts,
    fun other member => best.longer other (same.mem_iff.mpr member)⟩

theorem longestMatchPermuted (same : table.Perm others) (text : List Char) :
    longestMatch table text = longestMatch others text := by
  refine Option.ext (fun s => ?_)
  rw [longestMatchSome,longestMatchSome]
  exact ⟨fun best => best.permuted same,fun best => best.permuted same.symm⟩

theorem longestMatchOrderless (table : List Symbol) (permuted : table.Perm compounds)
    (input : List Char) (position : Nat) :
    longestMatch table (input.drop position) = longestMatch compounds (input.drop position) ∧
    (longestMatch table (input.drop position) = none ↔
      ∀ s ∈ compounds, ¬ s.characters <+: input.drop position) ∧
    ∀ s length, (longestMatch table (input.drop position)).map (fun s => (s,s.characters.length)) =
        some (s,length) ↔
      Outgrows compounds (input.drop position) s ∧ length = s.characters.length := by
  rw [longestMatchPermuted permuted]
  refine ⟨rfl,longestMatchNone,fun s length => ?_⟩
  rw [Option.map_eq_some_iff,← longestMatchSome]
  constructor
  · rintro ⟨_,found,same⟩
    cases same
    exact ⟨found,rfl⟩
  · rintro ⟨found,rfl⟩
    exact ⟨s,found,rfl⟩

theorem longestMatchBackwards : compounds.reverse.Perm compounds ∧
    longestMatch compounds.reverse ("a**=//".toList.drop 1) = some starStarAssign ∧
    longestMatch compounds.reverse ("a**=//".toList.drop 4) = some slashSlash ∧
    longestMatch compounds.reverse ("a**=//".toList.drop 5) = none := by
  have backwards := List.reverse_perm compounds
  have same := fun position => (longestMatchOrderless _ backwards "a**=//".toList position).1
  rw [same,same,same]
  exact ⟨backwards,by decide,by decide,by decide⟩

end JutsuSyntax.Token.Symbol
