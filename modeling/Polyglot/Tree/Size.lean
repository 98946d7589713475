import Polyglot.Tree.Node

/-!
This module contains the facts on sizes that make walks over trees terminate: a child is smaller
than its parent, and so are all named children together.
-/

namespace Polyglot

namespace Node

/--
The number of nodes below the given ones, themselves included.
-/
def sizeAll : List Node → Nat
  | [] => 0
  | n :: ns => n.size + sizeAll ns

theorem sizeAll_append (ns ms : List Node) : sizeAll (ns ++ ms) = sizeAll ns + sizeAll ms := by
  induction ns with
  | nil => simp [sizeAll]
  | cons n ns ih => simp [sizeAll, ih, Nat.add_assoc]

theorem sizeAll_place (n : Node) (before ts : List Tree) :
    sizeAll (n.place before ts) = Tree.sizeAll ts := by
  induction ts generalizing before with
  | nil => simp [place, sizeAll, Tree.sizeAll]
  | cons t after ih => simp [place, sizeAll, Tree.sizeAll, ih, size]

theorem size_eq (n : Node) : n.size = 1 + sizeAll n.children := by
  rw [children, sizeAll_place, size]
  cases n.tree
  simp [Tree.size]

theorem sizeAll_filter_le (p : Node → Bool) (ns : List Node) :
    sizeAll (ns.filter p) ≤ sizeAll ns := by
  induction ns with
  | nil => simp
  | cons n ns ih =>
    simp only [List.filter_cons]
    split <;> simp only [sizeAll] <;> omega

theorem sizeAll_namedChildren_lt (n : Node) : sizeAll n.namedChildren < n.size := by
  have := sizeAll_filter_le (·.isNamed) n.children
  rw [size_eq n]
  simp only [namedChildren]
  omega

theorem size_le_sizeAll {c : Node} {ns : List Node} (h : c ∈ ns) : c.size ≤ sizeAll ns := by
  induction ns with
  | nil => cases h
  | cons n ns ih =>
    rw [sizeAll]
    rcases List.mem_cons.1 h with rfl | h
    · omega
    · have := ih h
      omega

theorem size_lt_of_mem_children {n c : Node} (h : c ∈ n.children) : c.size < n.size := by
  have := size_le_sizeAll h
  rw [size_eq n]
  omega

theorem size_lt_of_mem_namedChildren {n c : Node} (h : c ∈ n.namedChildren) : c.size < n.size :=
  size_lt_of_mem_children (List.mem_filter.1 h).1

theorem size_lt_of_field {n c : Node} {name : String} (h : n.field? name = some c) :
    c.size < n.size :=
  size_lt_of_mem_children (List.mem_of_find?_eq_some h)

theorem size_pos (n : Node) : 0 < n.size := n.tree.size_pos

/--
The number of nodes below the pending ones of a walk.
-/
def pendingSize (pending : List (Node × α)) : Nat := sizeAll (pending.map Prod.fst)

theorem pendingSize_cons (n : Node) (a : α) (pending : List (Node × α)) :
    pendingSize ((n, a) :: pending) = n.size + pendingSize pending := rfl

theorem pendingSize_append (p q : List (Node × α)) :
    pendingSize (p ++ q) = pendingSize p + pendingSize q := by
  rw [pendingSize, List.map_append, sizeAll_append, pendingSize, pendingSize]

theorem pendingSize_namedChildren_lt (n : Node) (a : α) :
    pendingSize (n.namedChildren.map (·, a)) < n.size := by
  have : (n.namedChildren.map (·, a)).map Prod.fst = n.namedChildren := by
    simp [Function.comp_def]
  rw [pendingSize, this]
  exact n.sizeAll_namedChildren_lt

end Node

end Polyglot
