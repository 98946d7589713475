import Mathlib.Data.List.Flatten
import Polyglot.Proofs.Counting
import Polyglot.Proofs.Tree.Preorder

/-!
This module contains walks as recursions: the pending nodes are worked off like a plain recursion
over the tree. A walk that visits everything within the depth limit is a fold over the visited nodes
in preorder.
-/

namespace Polyglot

namespace Scope

open CountM

section Recursion

variable {σ : Type} (scope : Scope) (visit : Node → Nat → StateT σ CountM Bool)

theorem walkPending_append (p q : List (Node × Nat)) :
    scope.walkPending visit (p ++ q) = (do
      scope.walkPending visit p
      scope.walkPending visit q) := by
  induction p using walkPending.induct with
  | case1 => rw [List.nil_append, walkPending.eq_1, pure_bind]
  | case2 n depth p ih ih' =>
    rw [List.cons_append, walkPending.eq_2, walkPending.eq_2, bind_assoc, ih', ← List.append_assoc,
      ih]
    congr 1
    funext entered
    cases entered with
    | false => rfl
    | true =>
      simp only [↓reduceIte, bind_assoc]
      congr 1
      funext descend
      cases descend with
      | false => rfl
      | true => rfl

theorem walkPending_map (ns : List Node) (depth : Nat) :
    scope.walkPending visit (ns.map (·, depth)) = ns.forM fun n => scope.walk n depth visit := by
  induction ns with
  | nil => rw [List.map_nil, walkPending.eq_1, List.forM_eq_forM, List.forM_nil]
  | cons n ns ih =>
    rw [List.map_cons, List.forM_eq_forM, List.forM_cons, ← List.forM_eq_forM, ← ih]
    exact walkPending_append scope visit [(n, depth)] _

/--
A walk is a recursion: it visits the node and then walks the named children, one after the other.
-/
theorem walk_eq (n : Node) (depth : Nat) :
    scope.walk n depth visit = (do
      if ← scope.enter depth then
        if ← visit n depth then
          n.namedChildren.forM fun c => scope.walk c (depth + 1) visit) := by
  rw [walk, walkPending.eq_2, walkPending.eq_1, List.append_nil, walkPending_map]

end Recursion

/--
The nodes that a walk from `n` visits if it begins at the given depth and never turns back.
-/
def visited (scope : Scope) (n : Node) (depth : Nat) : List Node :=
  if scope.limits.maxTreeDepth < depth then []
  else n :: n.namedChildren.attach.flatMap fun ⟨c, _⟩ => visited scope c (depth + 1)
termination_by n.size
decreasing_by exact Node.size_lt_of_mem_namedChildren ‹_›

theorem visited_eq (scope : Scope) (n : Node) (depth : Nat) :
    scope.visited n depth =
      if scope.limits.maxTreeDepth < depth then []
      else n :: n.namedChildren.flatMap (scope.visited · (depth + 1)) := by
  rw [visited]
  simp

theorem sublist_visited (scope : Scope) (n : Node) (depth : Nat) :
    (scope.visited n depth).Sublist (Extract.namedSubtree n) := by
  induction n using Extract.namedInduction generalizing depth with
  | step n ih =>
    rw [visited_eq, Extract.namedSubtree_eq]
    split
    · apply List.nil_sublist
    · apply List.Sublist.cons_cons
      apply List.Sublist.flatMap_right
      intro c hc
      exact ih c hc (depth + 1)

theorem mem_visited_of_reaches {scope : Scope} {n m : Node} {depth d : Nat}
    (h : n.Reaches d m) (hd : depth + d ≤ scope.limits.maxTreeDepth) :
    m ∈ scope.visited n depth := by
  induction n using Extract.namedInduction generalizing depth d with
  | step n ih =>
    rw [visited_eq, if_neg (by omega), List.mem_cons, List.mem_flatMap]
    rcases h.cases_head with ⟨-, rfl⟩ | ⟨e, c, rfl, hc, hm⟩
    · exact .inl rfl
    · exact .inr ⟨c, hc, ih c hc hm (by omega)⟩

section Exhaustive

variable {σ : Type} (scope : Scope) (act : Node → StateT σ CountM Unit)

/--
How a visit changes the state.
-/
def advance (s : σ) (n : Node) : σ := ((act n).run s).value.2

/--
What the visits of the given nodes count, one after the other.
-/
def tally (s : σ) : List Node → Fallbacks
  | [] => 0
  | n :: ns => ((act n).run s).cost + tally (advance act s n) ns

theorem tally_append (s : σ) (ns ms : List Node) :
    tally act s (ns ++ ms) = tally act s ns + tally act (ns.foldl (advance act) s) ms := by
  induction ns generalizing s with
  | nil => rw [List.nil_append, tally, List.foldl_nil, zero_add]
  | cons n ns ih => rw [List.cons_append, tally, tally, ih, List.foldl_cons, add_assoc]

/--
The nodes whose subtrees are cut off at the depth limit.
-/
def cutOff (n : Node) (depth : Nat) : List Node :=
  if scope.limits.maxTreeDepth < depth then [n]
  else n.namedChildren.attach.flatMap fun ⟨c, _⟩ => cutOff c (depth + 1)
termination_by n.size
decreasing_by exact Node.size_lt_of_mem_namedChildren ‹_›

theorem cutOff_eq (n : Node) (depth : Nat) :
    scope.cutOff n depth =
      if scope.limits.maxTreeDepth < depth then [n]
      else n.namedChildren.flatMap (scope.cutOff · (depth + 1)) := by
  rw [cutOff]
  simp

/--
The nodes that are visited from the pending ones on.
-/
def visitedAll (pending : List (Node × Nat)) : List Node :=
  pending.flatMap fun p => scope.visited p.1 p.2

def cutOffAll (pending : List (Node × Nat)) : List Node :=
  pending.flatMap fun p => scope.cutOff p.1 p.2

/--
The walk that acts on every node and always goes on to the children.
-/
def sweep (pending : List (Node × Nat)) : StateT σ CountM Unit :=
  scope.walkPending (fun n _ => do act n; return true) pending

variable {scope act} {n : Node} {depth : Nat} {pending : List (Node × Nat)} {s : σ}

theorem run_sweep_beyond (hd : scope.limits.maxTreeDepth < depth) (f : Fallbacks) :
    ((scope.sweep act ((n, depth) :: pending)).run s).run f =
      ((scope.sweep act pending).run s).run (f + { truncatedSubtrees := 1 }) := by
  rw [sweep, walkPending]
  simp only [enter, bind_pure_comp, if_pos hd, liftM_map, bind_map_left, ↓reduceIte,
    Bool.false_eq_true, StateT.run_bind, StateT.run_monadLift, monadLift_self]
  rfl

theorem run_sweep_within (h : ((act n).run s).Additive)
    (hd : ¬ scope.limits.maxTreeDepth < depth) (f : Fallbacks) :
    ((scope.sweep act ((n, depth) :: pending)).run s).run f =
      ((scope.sweep act (n.namedChildren.map (·, depth + 1) ++ pending)).run (advance act s n)).run
        (f + ((act n).run s).cost) := by
  rw [sweep, walkPending]
  simp only [enter, bind_pure_comp, if_neg hd, liftM_pure, bind_map_left, ↓reduceIte,
    pure_bind, StateT.run_bind, h f]
  rfl

theorem visitedAll_cons (n : Node) (depth : Nat) (pending : List (Node × Nat)) :
    scope.visitedAll ((n, depth) :: pending) =
      if scope.limits.maxTreeDepth < depth then scope.visitedAll pending
      else n :: scope.visitedAll (n.namedChildren.map (·, depth + 1) ++ pending) := by
  simp only [visitedAll, List.flatMap_cons, List.flatMap_append, List.flatMap_map]
  rw [visited_eq]
  split
  · rfl
  · rfl

theorem cutOffAll_cons (n : Node) (depth : Nat) (pending : List (Node × Nat)) :
    scope.cutOffAll ((n, depth) :: pending) =
      if scope.limits.maxTreeDepth < depth then n :: scope.cutOffAll pending
      else scope.cutOffAll (n.namedChildren.map (·, depth + 1) ++ pending) := by
  simp only [cutOffAll, List.flatMap_cons, List.flatMap_append, List.flatMap_map]
  rw [cutOff_eq]
  split
  · rfl
  · rfl

theorem run_sweep (scope : Scope) (h : ∀ n s, ((act n).run s).Additive)
    (pending : List (Node × Nat)) (s : σ) (f : Fallbacks) :
    ((scope.sweep act pending).run s).run f =
      (((), (scope.visitedAll pending).foldl (advance act) s),
        f + (tally act s (scope.visitedAll pending) +
          { truncatedSubtrees := (scope.cutOffAll pending).length })) := by
  -- The first pending node is cut off, or it is visited and its children are put in its place.
  induction pending using walkPending.induct generalizing s f with
  | case1 =>
    rw [sweep, walkPending]
    exact Prod.ext rfl (add_zero f).symm
  | case2 n depth pending ih ih' =>
    rw [visitedAll_cons, cutOffAll_cons]
    by_cases hd : scope.limits.maxTreeDepth < depth
    · rw [run_sweep_beyond hd, ih', if_pos hd, if_pos hd, add_assoc]
      rw [add_left_comm ({ truncatedSubtrees := 1 } : Fallbacks), List.length_cons,
        Nat.add_comm _ 1]
      rfl
    · rw [run_sweep_within (h n s) hd, ih, if_neg hd, if_neg hd, tally, add_assoc, add_assoc,
        List.foldl_cons]

end Exhaustive

end Scope

end Polyglot
