import JutsuSyntax.Proofs.Tree.Shape
import JutsuSyntax.Tree.Preorder

/-! The visit of a tree. What it still has to give is the nodes of the trees on its stack, so it gives
every node of the tree once, in order, and then nothing. The rows of the nodes are a prefix code: the
number of children tells where the rows of a tree end. -/
namespace JutsuSyntax.Tree

theorem nodesAllFlat (ts : List Tree) : nodesAll ts = ts.flatMap nodes := by
  induction ts with
  | nil => rfl
  | cons t ts ih => rw [nodesAll,ih,List.flatMap_cons]

theorem nodesRoot (t : Tree) : t.nodes = t :: t.children.flatMap nodes := by
  rw [← nodesAllFlat]
  cases t
  rfl

namespace Preorder

def call (visit : Preorder) : Option Tree × Preorder :=
  match visit.next with
  | some (t,later) => (some t,later)
  | none => (none,visit)

def calls : Nat → Preorder → List (Option Tree) × Preorder
  | 0, visit => ([],visit)
  | n + 1, visit => (visit.call.1 :: (calls n visit.call.2).1,(calls n visit.call.2).2)

def ahead (visit : Preorder) : List Tree := visit.stack.flatMap nodes

theorem aheadCons (t : Tree) (ts : List Tree) : ahead ⟨t :: ts⟩ = t :: ahead ⟨t.children ++ ts⟩ := by
  simp only [ahead,List.flatMap_cons,List.flatMap_append,nodesRoot t,List.cons_append]

theorem callAhead (visit : Preorder) :
    visit.call.1 = visit.ahead.head? ∧ visit.call.2.ahead = visit.ahead.tail := by
  obtain ⟨stack⟩ := visit
  cases stack with
  | nil => exact ⟨rfl,rfl⟩
  | cons t ts =>
    rw [aheadCons]
    exact ⟨rfl,rfl⟩

theorem callsAhead (n : Nat) (visit : Preorder) :
    (visit.calls n).1 = (List.range n).map (visit.ahead[·]?) ∧
      (visit.calls n).2.ahead = visit.ahead.drop n := by
  induction n generalizing visit with
  | zero => exact ⟨rfl,rfl⟩
  | succ n ih =>
    obtain ⟨first,rest⟩ := callAhead visit
    obtain ⟨results,later⟩ := ih visit.call.2
    rw [rest] at results later
    constructor
    · simp only [calls,results,first,List.range_succ_eq_map,List.map_cons,List.map_map,
        List.head?_eq_getElem?,List.getElem?_tail,Function.comp_def,Nat.succ_eq_add_one]
    · rw [calls,later,List.drop_tail]

theorem toListAhead (visit : Preorder) : visit.toList = visit.ahead := by
  fun_induction toList visit with
  | case1 visit ended =>
    obtain ⟨stack⟩ := visit
    cases stack with
    | nil => rfl
    | cons t ts => contradiction
  | case2 visit t later step _ ih =>
    obtain ⟨stack⟩ := visit
    cases stack with
    | nil => contradiction
    | cons s ts =>
      cases step
      rw [ih,aheadCons]

end Preorder

theorem preorderNodes (t : Tree) : t.preorder.toList = t.nodes := by
  rw [Preorder.toListAhead]
  exact List.append_nil _

def node? : Tree → List Nat → Option Tree
  | t, [] => some t
  | t, index :: path => t.children[index]?.bind (fun child => child.node? path)

mutual
def places : Tree → List (List Nat × Tree)
  | ⟨kind,value,children⟩ => ([],⟨kind,value,children⟩) :: placesFrom 0 children
def placesFrom (index : Nat) : List Tree → List (List Nat × Tree)
  | [] => []
  | t :: ts => (places t).map (fun place => (index :: place.1,place.2)) ++ placesFrom (index + 1) ts
end

mutual
theorem placesNodes : (t : Tree) → t.places.map Prod.snd = t.nodes
  | ⟨kind,value,children⟩ => by
    rw [places,nodes,List.map_cons,placesFromNodes 0 children]
theorem placesFromNodes (index : Nat) : (ts : List Tree) →
    (placesFrom index ts).map Prod.snd = nodesAll ts
  | [] => rfl
  | t :: ts => by
    rw [placesFrom,nodesAll,List.map_append,List.map_map,← placesNodes t,placesFromNodes (index + 1) ts]
    rfl
end

theorem placesFromHead {index : Nat} {ts : List Tree} {path : List Nat} {n : Tree}
    (member : (path,n) ∈ placesFrom index ts) : ∃ number rest, path = (index + number) :: rest := by
  induction ts generalizing index with
  | nil => contradiction
  | cons t ts ih =>
    rcases List.mem_append.mp member with first | later
    · obtain ⟨place,_,same⟩ := List.mem_map.mp first
      cases same
      exact ⟨0,place.1,rfl⟩
    · obtain ⟨number,rest,rfl⟩ := ih later
      exact ⟨number + 1,rest,by rw [Nat.add_right_comm,Nat.add_assoc]⟩

mutual
theorem placesFound : (t : Tree) → (path : List Nat) → (n : Tree) →
    ((path,n) ∈ t.places ↔ t.node? path = some n)
  | ⟨kind,value,children⟩, [], n => by
    have root : ([],n) ∉ placesFrom 0 children := by
      intro member
      obtain ⟨_,_,filled⟩ := placesFromHead member
      contradiction
    simp [places,node?,root,eq_comm]
  | ⟨kind,value,children⟩, index :: path, n => by
    have below := placesFromFound 0 children index path n
    rw [Nat.zero_add] at below
    simpa [places,node?] using below
theorem placesFromFound (index : Nat) : (ts : List Tree) → (number : Nat) → (path : List Nat) →
    (n : Tree) → (((index + number) :: path,n) ∈ placesFrom index ts ↔
      ts[number]?.bind (·.node? path) = some n)
  | [], number, path, n => by simp [placesFrom]
  | t :: ts, 0, path, n => by
    have first : (index :: path,n) ∉ placesFrom (index + 1) ts := by
      intro member
      obtain ⟨_,_,same⟩ := placesFromHead member
      have := (List.cons.inj same).1
      omega
    simp [placesFrom,first,placesFound t path n]
  | t :: ts, number + 1, path, n => by
    have later := placesFromFound (index + 1) ts number path n
    rw [Nat.add_right_comm,Nat.add_assoc] at later
    simpa [placesFrom] using later
end

mutual
theorem placesApart : (t : Tree) → (t.places.map Prod.fst).Nodup
  | ⟨kind,value,children⟩ => by
    rw [places,List.map_cons,List.nodup_cons]
    refine ⟨fun member => ?_,placesFromApart 0 children⟩
    obtain ⟨place,inside,same⟩ := List.mem_map.mp member
    obtain ⟨_,_,filled⟩ := placesFromHead inside
    exact absurd (same.symm.trans filled) nofun
theorem placesFromApart (index : Nat) : (ts : List Tree) → ((placesFrom index ts).map Prod.fst).Nodup
  | [] => .nil
  | t :: ts => by
    have own : ((t.places.map Prod.fst).map (index :: ·)).Nodup :=
      List.Pairwise.map (index :: ·) (fun _ _ differ same => differ (List.cons.inj same).2)
        (placesApart t)
    rw [List.map_map] at own
    rw [placesFrom,List.map_append,List.map_map,List.nodup_append]
    refine ⟨own,placesFromApart (index + 1) ts,?_⟩
    intro path first other later same
    obtain ⟨place,_,rfl⟩ := List.mem_map.mp first
    obtain ⟨place,beyond,rfl⟩ := List.mem_map.mp later
    obtain ⟨number,rest,filled⟩ := placesFromHead beyond
    have := (List.cons.inj (same.trans filled)).1
    omega
end

mutual
theorem rowsCut : (a b : Tree) → {x y : List Row} →
    a.nodes.map row ++ x = b.nodes.map row ++ y → a = b ∧ x = y
  | ⟨kind,value,as⟩, ⟨kind',value',bs⟩, x, y, same => by
    rw [nodes,nodes] at same
    obtain ⟨head,rest⟩ := List.cons.inj same
    obtain ⟨rfl,rfl,number⟩ := Row.mk.inj head
    obtain ⟨rfl,behind⟩ := rowsAllCut as bs number rest
    exact ⟨rfl,behind⟩
theorem rowsAllCut : (as bs : List Tree) → {x y : List Row} → as.length = bs.length →
    (nodesAll as).map row ++ x = (nodesAll bs).map row ++ y → as = bs ∧ x = y
  | [], [], x, y, _, same => ⟨rfl,same⟩
  | a :: as, b :: bs, x, y, number, same => by
    simp only [nodesAll,List.map_append,List.append_assoc] at same
    obtain ⟨rfl,rest⟩ := rowsCut a b same
    obtain ⟨rfl,behind⟩ := rowsAllCut as bs (Nat.succ.inj number) rest
    exact ⟨rfl,behind⟩
end

theorem rowsNodes (t : Tree) : t.rows = t.nodes.map row := by rw [rows,preorderNodes]

theorem rowsPrefix {a b : Tree} (h : a.rows <+: b.rows) : a = b := by
  obtain ⟨behind,same⟩ := h
  rw [rowsNodes,rowsNodes] at same
  exact (rowsCut a b (same.trans (List.append_nil _).symm)).1

/-- The visit gives each node of the tree once, before those below it, and then nothing; at every
moment the rest is on its stack. No two trees have the same rows, nor rows that begin the other's. -/
theorem preorderVisits (t : Tree) :
    t.nodes = t :: t.children.flatMap nodes ∧
    t.preorder.toList = t.nodes ∧
    (∀ n, (t.preorder.calls n).1 = (List.range n).map (t.nodes[·]?)) ∧
    (∀ n more, let visit := (t.preorder.calls n).2
      visit.stack.flatMap nodes = t.nodes.drop n ∧
      (visit.calls more).1 = (List.range more).map ((visit.stack.flatMap nodes)[·]?)) ∧
    (t.places.map Prod.snd = t.nodes ∧ (t.places.map Prod.fst).Nodup ∧
      ∀ path n, (path,n) ∈ t.places ↔ t.node? path = some n) ∧
    (∀ other : Tree, t.rows = other.rows ↔ t = other) ∧
    (∀ other : Tree, t.rows <+: other.rows ↔ t = other) := by
  have whole : t.preorder.ahead = t.nodes := List.append_nil _
  have visits := fun n => Preorder.callsAhead n t.preorder
  rw [whole] at visits
  refine ⟨nodesRoot t,preorderNodes t,fun n => (visits n).1,fun n more => ⟨(visits n).2,?_⟩,
    ⟨placesNodes t,placesApart t,placesFound t⟩,fun other => ⟨fun same => ?_,congrArg rows⟩,
    fun other => ⟨rowsPrefix,?_⟩⟩
  · exact (Preorder.callsAhead more _).1
  · exact rowsPrefix (same ▸ List.prefix_rfl)
  · rintro rfl
    exact List.prefix_rfl

end JutsuSyntax.Tree
