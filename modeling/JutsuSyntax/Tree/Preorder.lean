import JutsuSyntax.Tree.Basic

/-! Visiting a tree from the root down, each node before its children. The visit keeps a stack
of the trees still to be seen, the next one first. -/
namespace JutsuSyntax.Tree

structure Preorder where
  stack : List Tree
  deriving DecidableEq, Repr

namespace Preorder

def next : Preorder → Option (Tree × Preorder)
  | ⟨[]⟩ => none
  | ⟨t :: ts⟩ => some (t,⟨t.children ++ ts⟩)

def toList (visit : Preorder) : List Tree :=
  match step : visit.next with
  | none => []
  | some (t,later) =>
    have smaller : sizeAll later.stack < sizeAll visit.stack := by
      match visit, step with
      | ⟨t :: ts⟩, rfl =>
        rw [sizeAllAppend,sizeAll,sizeChildren]
        omega
    t :: toList later
termination_by sizeAll visit.stack

end Preorder

def preorder (t : Tree) : Preorder := ⟨[t]⟩

structure Row where
  kind : Kind
  value : Option String
  children : Nat
  deriving DecidableEq, Repr

def row (t : Tree) : Row := ⟨t.kind,t.value,t.children.length⟩

def rows (t : Tree) : List Row := t.preorder.toList.map row

end JutsuSyntax.Tree
