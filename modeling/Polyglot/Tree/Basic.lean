/-!
This module contains concrete syntax trees as a parser hands them over: every node has a kind, a
range of bytes, and its children in source order, tokens included.
-/

namespace Polyglot

/--
What is known of a node apart from its children. Tokens that the grammar writes literally are not
named. `field` is the role under which the parent holds the node, and `hasError` says that the
parser had to recover somewhere in it.
-/
structure Label where
  kind : String
  isNamed : Bool
  hasError : Bool
  field : Option String
  start : Nat
  stop : Nat
deriving DecidableEq, Repr, Inhabited

inductive Tree where
  | node (label : Label) (children : List Tree)
deriving Repr, Inhabited

namespace Tree

def label : Tree → Label
  | node label _ => label

def children : Tree → List Tree
  | node _ children => children

@[simp]
theorem label_node (l : Label) (ts : List Tree) : (node l ts).label = l := rfl

@[simp]
theorem children_node (l : Label) (ts : List Tree) : (node l ts).children = ts := rfl

mutual

/--
The number of nodes of a tree.
-/
def size : Tree → Nat
  | node _ children => 1 + sizeAll children

def sizeAll : List Tree → Nat
  | [] => 0
  | t :: rest => size t + sizeAll rest

end

theorem size_pos (t : Tree) : 0 < t.size := by
  cases t with
  | node l ts =>
    rw [size]
    omega

/--
A node with its depth, as one row of a listing in preorder.
-/
structure Row where
  depth : Nat
  label : Label
deriving Repr

/--
Close the innermost open nodes until `depth` of them are left. Children are kept in reverse while a
node is open.
-/
def close (depth : Nat) :
    List (Label × List Tree) → List Tree → List (Label × List Tree) × List Tree
  | [], done => ([], done)
  | (label, children) :: rest, done =>
    if depth ≤ rest.length then
      match rest with
      | [] => ([], node label children.reverse :: done)
      | (outer, siblings) :: rest =>
        close depth ((outer, node label children.reverse :: siblings) :: rest) done
    else ((label, children) :: rest, done)
termination_by pending => pending.length

/--
The tree that a listing in preorder describes: the parent of a row is the closest earlier row one
level above it. The root is the first row.
-/
def ofPreorder? (rows : List Row) : Option Tree :=
  let step := fun (state : List (Label × List Tree) × List Tree) (row : Row) =>
    let (pending, done) := close row.depth state.1 state.2
    ((row.label, []) :: pending, done)
  let (pending, done) := rows.foldl step ([], [])
  (close 0 pending done).2.getLast?

end Tree

end Polyglot
