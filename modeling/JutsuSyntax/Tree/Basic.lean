/-! Syntax trees: nodes of a kind, with an optional text and any number of children. The outline
of a tree has a line for each node, two spaces deeper than its parent's. -/
namespace JutsuSyntax

namespace Tree

inductive Kind where
  | program | body
  | assignment | returned | call | conditional
  | binary | unary | expression | argument
  | definition | identifier | integer | string | boolean
  deriving DecidableEq, Repr

namespace Kind

def title : Kind → String
  | program => "Program" | body => "Body"
  | assignment => "AssignStmt" | returned => "ReturnStmt" | call => "CallStmt"
  | conditional => "IfStmt"
  | binary => "BinaryOp" | unary => "UnaryOp" | expression => "Expr" | argument => "Argument"
  | definition => "VarDecl" | identifier => "Variable" | integer => "IntegerConst"
  | string => "StringConst" | boolean => "BooleanConst"

def all : List Kind :=
  [program,body,assignment,returned,call,conditional,binary,unary,expression,argument,
   definition,identifier,integer,string,boolean]

def ofTitle? (title : String) : Option Kind := all.find? (fun kind => kind.title == title)

end Kind
end Tree

structure Tree where
  kind : Tree.Kind
  value : Option String
  children : List Tree
  deriving Repr

namespace Tree

mutual
def decideEq : (a b : Tree) → Decidable (a = b)
  | ⟨ka,va,as⟩, ⟨kb,vb,bs⟩ =>
    if label : ka = kb ∧ va = vb then
      match decideEqAll as bs with
      | isTrue same => isTrue (by rw [label.1,label.2,same])
      | isFalse differ => isFalse (fun same => differ (by injection same))
    else isFalse (fun same => label (by injection same with kind value; exact ⟨kind,value⟩))
def decideEqAll : (as bs : List Tree) → Decidable (as = bs)
  | [], [] => isTrue rfl
  | [], _ :: _ => isFalse nofun
  | _ :: _, [] => isFalse nofun
  | a :: as, b :: bs =>
    match decideEq a b, decideEqAll as bs with
    | isTrue first, isTrue others => isTrue (by rw [first,others])
    | isFalse differ, _ => isFalse (fun same => differ (by injection same))
    | isTrue _, isFalse differ => isFalse (fun same => differ (by injection same))
end

instance : DecidableEq Tree := decideEq

def leaf (kind : Kind) (value : String) : Tree := ⟨kind,some value,[]⟩

def push (parent child : Tree) : Tree := {parent with children := parent.children ++ [child]}

def program (statements : List Tree) : Tree := ⟨.program,none,statements⟩
def body (statements : List Tree) : Tree := ⟨.body,none,statements⟩
def identifier (name : String) : Tree := leaf .identifier name
def integer (digits : String) : Tree := leaf .integer digits
def string (contents : String) : Tree := leaf .string contents
def boolean (truth : Bool) : Tree := leaf .boolean (if truth then "1" else "0")
def expression (inner : Tree) : Tree := ⟨.expression,none,[inner]⟩
def argument (inner : Tree) : Tree := ⟨.argument,none,[inner]⟩
def unary (operator : String) (operand : Tree) : Tree := ⟨.unary,some operator,[operand]⟩
def binary (operator : String) (left right : Tree) : Tree := ⟨.binary,some operator,[left,right]⟩
def call (callee : String) (arguments : List Tree) : Tree :=
  ⟨.call,some callee,arguments.map argument⟩
def assignment (target value : Tree) : Tree := ⟨.assignment,none,[target,value]⟩
def returned (value : Tree) : Tree := ⟨.returned,none,[value]⟩

def conditional (condition : Tree) (statements : List Tree) : Tree :=
  ⟨.conditional,none,condition :: if statements.isEmpty then [] else [body statements]⟩

def definition (name : String) (parameters : List String) (statements : List Tree) : Tree :=
  ⟨.definition,some name,parameters.map identifier ++ [body statements]⟩

mutual
def size : Tree → Nat
  | ⟨_,_,children⟩ => sizeAll children + 1
def sizeAll : List Tree → Nat
  | [] => 0
  | t :: ts => size t + sizeAll ts
end

theorem sizeAllAppend (front back : List Tree) :
    sizeAll (front ++ back) = sizeAll front + sizeAll back := by
  induction front with
  | nil => simp [sizeAll]
  | cons t ts ih => simp [sizeAll,ih,Nat.add_assoc]

theorem sizeChildren (t : Tree) : t.size = sizeAll t.children + 1 := by
  cases t; rw [size]

def heading (kind : Kind) : Option String → String
  | some value => s!"\x7b{kind.title}, {value}\x7d"
  | none => s!"\x7b{kind.title}\x7d"

def indent (depth : Nat) : String := String.ofList (List.replicate (2 * depth) ' ')

mutual
def outlineLines (depth : Nat) : Tree → List String
  | ⟨kind,value,children⟩ => (indent depth ++ heading kind value) :: outlineAll (depth + 1) children
def outlineAll (depth : Nat) : List Tree → List String
  | [] => []
  | t :: ts => outlineLines depth t ++ outlineAll depth ts
end

def outline (t : Tree) : String := "\n".intercalate (outlineLines 0 t)

end Tree
end JutsuSyntax
