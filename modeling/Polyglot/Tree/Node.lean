import Polyglot.Tree.Basic
import Polyglot.Tree.Source

/-!
This module contains nodes: a tree together with its place in the file's tree, so that the parent
and the siblings stay visible, and the source text that it was parsed from.
-/

namespace Polyglot

/--
One step up from a node: the label of its parent and the siblings on both sides. Those before the
node stand nearest first.
-/
structure Frame where
  label : Label
  before : List Tree
  after : List Tree
deriving Repr

/--
A node of a syntax tree. `above` leads to the root, innermost step first.
-/
structure Node where
  source : Source
  tree : Tree
  above : List Frame

namespace Node

def root (source : Source) (tree : Tree) : Node := ⟨source, tree, []⟩

def label (n : Node) : Label := n.tree.label

def kind (n : Node) : String := n.label.kind

def isNamed (n : Node) : Bool := n.label.isNamed

def hasError (n : Node) : Bool := n.label.hasError

def text (n : Node) : String := n.source.slice n.label.start n.label.stop

def start (n : Node) : Position := n.source.position n.label.start

def stop (n : Node) : Position := n.source.position n.label.stop

def line (n : Node) : UInt32 := n.start.line

def size (n : Node) : Nat := n.tree.size

/--
Which child of its parent each node on the way to the root is, innermost first. Two nodes of one
tree are the same node if and only if their paths agree.
-/
def path (n : Node) : List Nat := n.above.map (·.before.length)

/--
The nodes for `ts`, which are children of `n` that follow `before`.
-/
def place (n : Node) (before : List Tree) : List Tree → List Node
  | [] => []
  | t :: after =>
    ⟨n.source, t, ⟨n.label, before, after⟩ :: n.above⟩ :: place n (t :: before) after

def children (n : Node) : List Node := n.place [] n.tree.children

def namedChildren (n : Node) : List Node := n.children.filter (·.isNamed)

def firstNamedChild? (n : Node) : Option Node := n.namedChildren.head?

def parent? (n : Node) : Option Node :=
  match n.above with
  | [] => none
  | ⟨label, before, after⟩ :: above =>
    some ⟨n.source, .node label (before.reverse ++ n.tree :: after), above⟩

/--
The kind of the parent, without building the parent.
-/
def parentKind? (n : Node) : Option String := n.above.head?.map (·.label.kind)

def prevSibling? (n : Node) : Option Node :=
  match n.above with
  | ⟨label, t :: before, after⟩ :: above =>
    some ⟨n.source, t, ⟨label, before, n.tree :: after⟩ :: above⟩
  | _ => none

def nextSibling? (n : Node) : Option Node :=
  match n.above with
  | ⟨label, before, t :: after⟩ :: above =>
    some ⟨n.source, t, ⟨label, n.tree :: before, after⟩ :: above⟩
  | _ => none

/--
All siblings before the node, nearest first.
-/
def prevSiblings (n : Node) : List Node :=
  match n.above with
  | [] => []
  | ⟨label, before, after⟩ :: above => go label above (n.tree :: after) before
where
  go (label : Label) (above : List Frame) (after : List Tree) : List Tree → List Node
    | [] => []
    | t :: before =>
      ⟨n.source, t, ⟨label, before, after⟩ :: above⟩ :: go label above (t :: after) before

/--
The children that the node holds under a field name.
-/
def fields (n : Node) (name : String) : List Node :=
  n.children.filter (·.label.field == some name)

def field? (n : Node) (name : String) : Option Node :=
  n.children.find? (·.label.field == some name)

def fieldText? (n : Node) (name : String) : Option String := (n.field? name).map text

/--
The first child, named or not, of one of the given kinds.
-/
def childOfKind? (n : Node) (kinds : List String) : Option Node :=
  n.children.find? (kinds.contains ·.kind)

def hasChildKind (n : Node) (kind : String) : Bool := n.children.any (·.kind == kind)

/--
The number of nodes that come before this one in preorder.
-/
def index (n : Node) : Nat :=
  n.above.foldr (fun frame before => 1 + Tree.sizeAll frame.before + before) 0

/--
The node with the given index below `n`, counted in preorder from zero for `n` itself.
-/
def descendant? (n : Node) (index : Nat) : Option Node :=
  if index = 0 then some n
  else go n.tree.children [] n (index - 1)
where
  /-- Look among `ts`, which are children of `n` that follow `before`. -/
  go (ts : List Tree) (before : List Tree) (n : Node) (index : Nat) : Option Node :=
    match ts with
    | [] => none
    | t :: after =>
      if index < t.size then
        let child : Node := ⟨n.source, t, ⟨n.label, before, after⟩ :: n.above⟩
        if index = 0 then some child else go t.children [] child (index - 1)
      else go after (t :: before) n (index - t.size)
  termination_by Tree.sizeAll ts
  decreasing_by
    · cases t
      simp only [Tree.children_node, Tree.sizeAll, Tree.size]
      omega
    · have := t.size_pos
      simp only [Tree.sizeAll]
      omega

end Node

end Polyglot
