import JutsuSyntax.Proofs.Token.Pieces
import JutsuSyntax.Proofs.Tree.Preorder
import JutsuSyntax.Tree.Basic

/-! Reading an outline back. A line tells how deep its node is and what the node holds, whatever
stands in the value; and the lines below a node end where a line is not deeper than the node. -/
namespace JutsuSyntax.Tree
open Token (Ended takeExact)

namespace Kind

theorem titleFound (kind : Kind) : ofTitle? kind.title = some kind := by cases kind <;> decide

theorem titleUnique {kind other : Kind} (same : kind.title = other.title) : kind = other := by
  have found := titleFound kind
  rw [same,titleFound other] at found
  exact (Option.some.inj found).symm

theorem titleLetters (kind : Kind) : ∀ c ∈ kind.title.toList, c.isAlpha := by
  have only : kind.title.toList.all Char.isAlpha := by cases kind <;> decide
  exact List.all_eq_true.mp only

end Kind

def remark : Option String → List Char
  | none => ['\x7d']
  | some value => ',' :: ' ' :: (value.toList ++ ['\x7d'])

variable {kind kind' : Kind} {value value' : Option String} {depth depth' : Nat} {x y : List String}

theorem headingCharacters (kind : Kind) (value : Option String) :
    (heading kind value).toList = '\x7b' :: (kind.title.toList ++ remark value) := by
  cases value <;> simp [heading,remark,toString]

theorem remarkEnds (value : Option String) : Ended Char.isAlpha (remark value) := by
  intro c head
  cases value <;> cases head <;> rfl

theorem remarkUnique (same : remark value = remark value') : value = value' := by
  cases value with
  | none =>
    cases value' with
    | none => rfl
    | some text => exact absurd (List.cons.inj same).1 (by decide)
  | some text =>
    cases value' with
    | none => exact absurd (List.cons.inj same).1 (by decide)
    | some text' =>
      have inside := (List.cons.inj (List.cons.inj same).2).2
      rw [String.toList_inj.mp (List.append_cancel_right inside)]

theorem headingUnique (same : heading kind value = heading kind' value') :
    kind = kind' ∧ value = value' := by
  have behind := congrArg String.toList same
  rw [headingCharacters,headingCharacters] at behind
  have behind := (List.cons.inj behind).2
  obtain ⟨title,rest⟩ := takeExact kind.titleLetters (remarkEnds value)
  rw [behind] at title rest
  obtain ⟨title',rest'⟩ := takeExact kind'.titleLetters (remarkEnds value')
  exact ⟨Kind.titleUnique (String.toList_inj.mp (title.symm.trans title')),
    remarkUnique (rest.symm.trans rest')⟩

theorem lineUnique (same : indent depth ++ heading kind value = indent depth' ++ heading kind' value') :
    depth = depth' ∧ kind = kind' ∧ value = value' := by
  have blank : ∀ depth, ∀ c ∈ (indent depth).toList, (c == ' ') := by simp [indent]
  have ended : ∀ kind value, Ended (· == ' ') (heading kind value).toList := by
    intro kind value c head
    rw [headingCharacters] at head
    cases head
    rfl
  have whole := congrArg String.toList same
  rw [String.toList_append,String.toList_append] at whole
  obtain ⟨front,back⟩ := takeExact (blank depth) (ended kind value)
  rw [whole] at front back
  obtain ⟨front',back'⟩ := takeExact (blank depth') (ended kind' value')
  refine ⟨?_,headingUnique (String.toList_inj.mp (back.symm.trans back'))⟩
  have width := congrArg List.length (front.symm.trans front')
  simp only [indent,String.toList_ofList,List.length_replicate] at width
  omega

def Shallow (depth : Nat) (lines : List String) : Prop :=
  ∀ line ∈ lines.head?, ∃ depth' ≤ depth, ∃ kind value, line = indent depth' ++ heading kind value

theorem shallowBehind (shallow : Shallow depth x) (ts : List Tree) :
    Shallow (depth + 1) (outlineAll (depth + 1) ts ++ x) := by
  cases ts with
  | nil =>
    intro line head
    obtain ⟨depth',least,content⟩ := shallow line head
    exact ⟨depth',Nat.le_succ_of_le least,content⟩
  | cons t ts =>
    intro line head
    obtain ⟨kind,value,children⟩ := t
    cases head
    exact ⟨depth + 1,Nat.le_refl _,kind,value,rfl⟩

theorem shallowApart (shallow : Shallow depth x) {t : Tree} {ts : List Tree} :
    x ≠ outlineAll (depth + 1) (t :: ts) ++ y := by
  rintro rfl
  obtain ⟨kind,value,children⟩ := t
  obtain ⟨depth',least,_,_,same⟩ := shallow _ rfl
  have := (lineUnique same).1
  omega

mutual
theorem outlineCut : (a b : Tree) → {depth : Nat} → {x y : List String} → Shallow depth x →
    Shallow depth y → outlineLines depth a ++ x = outlineLines depth b ++ y → a = b ∧ x = y
  | ⟨kind,value,as⟩, ⟨kind',value',bs⟩, depth, x, y, before, after, same => by
    rw [outlineLines,outlineLines] at same
    obtain ⟨line,rest⟩ := List.cons.inj same
    obtain ⟨_,rfl,rfl⟩ := lineUnique line
    obtain ⟨rfl,behind⟩ := outlineAllCut as bs before after rest
    exact ⟨rfl,behind⟩
theorem outlineAllCut : (as bs : List Tree) → {depth : Nat} → {x y : List String} → Shallow depth x →
    Shallow depth y → outlineAll (depth + 1) as ++ x = outlineAll (depth + 1) bs ++ y →
    as = bs ∧ x = y
  | [], [], _, _, _, _, _, same => ⟨rfl,same⟩
  | [], _ :: _, _, _, _, before, _, same => absurd same (shallowApart before)
  | _ :: _, [], _, _, _, _, after, same => absurd same.symm (shallowApart after)
  | a :: as, b :: bs, depth, x, y, before, after, same => by
    simp only [outlineAll,List.append_assoc] at same
    obtain ⟨rfl,rest⟩ := outlineCut a b (shallowBehind before as) (shallowBehind after bs) same
    obtain ⟨rfl,behind⟩ := outlineAllCut as bs before after rest
    exact ⟨rfl,behind⟩
end

theorem outlineLinesUnique {a b : Tree} (same : outlineLines 0 a = outlineLines 0 b) : a = b := by
  refine (@outlineCut a b 0 [] [] nofun nofun ?_).1
  rw [List.append_nil,List.append_nil,same]

def placeLine (depth : Nat) (place : List Nat × Tree) : String :=
  indent (depth + place.1.length) ++ heading place.2.kind place.2.value

theorem placeLineBelow (depth index : Nat) (place : List Nat × Tree) :
    placeLine depth (index :: place.1,place.2) = placeLine (depth + 1) place := by
  simp only [placeLine,List.length_cons,Nat.add_right_comm,Nat.add_assoc]

mutual
theorem outlinePlaces : (depth : Nat) → (t : Tree) → outlineLines depth t = t.places.map (placeLine depth)
  | depth, ⟨kind,value,children⟩ => by
    rw [outlineLines,places,List.map_cons,outlineAllPlaces depth 0 children]
    rfl
theorem outlineAllPlaces : (depth index : Nat) → (ts : List Tree) →
    outlineAll (depth + 1) ts = (placesFrom index ts).map (placeLine depth)
  | _, _, [] => rfl
  | depth, index, t :: ts => by
    simp only [outlineAll,placesFrom,List.map_append,List.map_map,Function.comp_def,placeLineBelow,
      outlinePlaces (depth + 1) t,outlineAllPlaces depth (index + 1) ts]
end

mutual
def writing (depth : Nat) : Tree → String
  | ⟨kind,value,children⟩ => indent depth ++ heading kind value ++ writingBelow (depth + 1) children
def writingBelow (depth : Nat) : List Tree → String
  | [] => ""
  | t :: ts => "\n" ++ writing depth t ++ writingBelow depth ts
end

theorem joinedCons (line : String) (lines : List String) :
    ("\n".intercalate (line :: lines)).toList =
      line.toList ++ lines.flatMap (fun line => '\n' :: line.toList) := by
  induction lines generalizing line with
  | nil => simp
  | cons next lines ih =>
    rw [String.intercalate_cons_cons,String.toList_append,String.toList_append,ih]
    simp

mutual
theorem writingLines : (depth : Nat) → (t : Tree) →
    writing depth t = "\n".intercalate (outlineLines depth t)
  | depth, ⟨kind,value,children⟩ => by
    rw [writing,outlineLines,← String.toList_inj,joinedCons,String.toList_append,
      writingBelowLines (depth + 1) children]
theorem writingBelowLines : (depth : Nat) → (ts : List Tree) → (writingBelow depth ts).toList =
    (outlineAll depth ts).flatMap (fun line => '\n' :: line.toList)
  | _, [] => rfl
  | depth, ⟨kind,value,children⟩ :: ts => by
    rw [writingBelow,outlineAll,List.flatMap_append,String.toList_append,String.toList_append,
      writingLines depth ⟨kind,value,children⟩,writingBelowLines depth ts,outlineLines,joinedCons]
    rfl
end

def SingleLined (t : Tree) : Prop := ∀ n ∈ t.nodes, ∀ value ∈ n.value, '\n' ∉ value.toList

instance (t : Tree) : Decidable t.SingleLined := by unfold SingleLined; infer_instance

theorem lineUnbroken (single : ∀ text ∈ value, '\n' ∉ text.toList) (depth : Nat) (kind : Kind) :
    '\n' ∉ (indent depth ++ heading kind value).toList := by
  have title : '\n' ∉ kind.title.toList := fun member => absurd (kind.titleLetters _ member) (by decide)
  have behind : '\n' ∉ remark value := by
    cases value with
    | none => decide
    | some text => simpa [remark] using single text rfl
  simp [headingCharacters,indent,title,behind]

theorem linesUnbroken {t : Tree} (single : t.SingleLined) :
    ∀ line ∈ (outlineLines 0 t).map String.toList, '\n' ∉ line := by
  intro line member
  rw [outlinePlaces,List.map_map] at member
  obtain ⟨place,among,rfl⟩ := List.mem_map.mp member
  refine lineUnbroken (single place.2 ?_) _ _
  rw [← placesNodes]
  exact List.mem_map_of_mem among

theorem outlineSplit {t : Tree} (single : t.SingleLined) :
    t.outline.toList.splitOn '\n' = (outlineLines 0 t).map String.toList := by
  rw [outline,String.toList_intercalate]
  refine List.splitOn_intercalate '\n' (linesUnbroken single) ?_
  obtain ⟨kind,value,children⟩ := t
  nofun

theorem outlineUnique {a b : Tree} (single : a.SingleLined) (single' : b.SingleLined)
    (same : a.outline = b.outline) : a = b := by
  have lines := outlineSplit single
  rw [same,outlineSplit single'] at lines
  have lines := (List.map_inj_right (fun _ _ => String.toList_inj.mp)).mp lines
  exact outlineLinesUnique lines.symm

/-- The outline has a line for each node in the order of a visit, and no two trees have the same one
unless a value of theirs has a line break. -/
theorem outlineFaithful (t : Tree) :
    t.outline = t.writing 0 ∧
    t.outline = "\n".intercalate (t.places.map (fun place =>
      indent place.1.length ++ heading place.2.kind place.2.value)) ∧
    t.places.map Prod.snd = t.preorder.toList ∧
    (∀ place ∈ t.places, t.node? place.1 = some place.2) ∧
    ∀ other : Tree, t.SingleLined → other.SingleLined → (t.outline = other.outline ↔ t = other) := by
  refine ⟨(writingLines 0 t).symm,?_,?_,fun place => (placesFound t place.1 place.2).mp,?_⟩
  · rw [outline,outlinePlaces]
    refine congrArg _ (List.map_congr_left (fun place _ => ?_))
    rw [placeLine,Nat.zero_add]
  · rw [placesNodes,preorderNodes]
  · intro other single single'
    exact ⟨outlineUnique single single',congrArg outline⟩

def unnamed : Tree := program [⟨.call,some "f\x7d, \x7bx",[⟨.identifier,none,[]⟩]⟩]

def emptyNamed : Tree := program [⟨.call,some "f\x7d, \x7bx",[⟨.identifier,some "",[]⟩]⟩]

theorem emptyNameShows : unnamed.SingleLined ∧ emptyNamed.SingleLined ∧
    unnamed.outline ≠ emptyNamed.outline := by
  have single : unnamed.SingleLined ∧ emptyNamed.SingleLined := by decide
  obtain ⟨_,_,_,_,faithful⟩ := outlineFaithful unnamed
  refine ⟨single.1,single.2,fun same => ?_⟩
  exact absurd ((faithful emptyNamed single.1 single.2).mp same) (by decide)

example : (program [string "a\x7d\n  \x7bVariable, b"]).outline =
    (program [string "a",identifier "b"]).outline := by decide

end JutsuSyntax.Tree
