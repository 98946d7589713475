import Mathlib.Algebra.Order.Ring.Int
import Polyglot.Proofs.Tree.Walk

/-!
This module contains what a walk visits, whatever its visitor does to the state and wherever it
turns back. The stack of pending nodes works like a plain recursion: every node that is reached
within the depth limit is visited once, in preorder, and every node that is reached beyond the limit
is counted once.
-/

namespace Polyglot

namespace Scope

section Recursion

variable {σ : Type} (scope : Scope) (visit : Node → Nat → StateT σ CountM Bool)

/--
The plain recursion: visit a node and, if the visitor asks for it, its named children in turn.
-/
def traverse (n : Node) (depth : Nat) : StateT σ CountM Unit := do
  if ← scope.enter depth then
    if ← visit n depth then
      n.namedChildren.attach.forM fun ⟨c, _⟩ => traverse c (depth + 1)
termination_by n.size
decreasing_by exact Node.size_lt_of_mem_namedChildren ‹_›

theorem walk_eq_traverse (n : Node) (depth : Nat) :
    scope.walk n depth visit = scope.traverse visit n depth := by
  induction n using Extract.namedInduction generalizing depth with
  | step n ih =>
    have hchildren :
        n.namedChildren.attach.forM (fun ⟨c, _⟩ => scope.traverse visit c (depth + 1)) =
          n.namedChildren.forM fun c => scope.walk c (depth + 1) visit := by
      simp only [← ih _ (Subtype.property _)]
      have hmap : forM (n.namedChildren.attach.map Subtype.val) _ = _ :=
        List.forM_map (f := fun c => scope.walk c (depth + 1) visit)
      rw [List.attach_map_subtype_val] at hmap
      exact hmap.symm
    rw [walk_eq, traverse, hchildren]

end Recursion

/--
A visit: the node and its depth, the counts before and after it, and whether the visitor asks for
the children.
-/
structure Visit where
  node : Node
  depth : Nat
  before : Fallbacks
  after : Fallbacks
  descends : Bool

/--
The visitor that also writes down its visits.
-/
def logged {σ : Type} (visit : Node → Nat → StateT σ CountM Bool) (n : Node) (depth : Nat) :
    StateT (σ × List Visit) CountM Bool := fun (s, log) => do
  let before ← get
  let (descends, s) ← (visit n depth).run s
  let after ← get
  return (descends, s, log ++ [{ node := n, depth, before, after, descends }])

/--
Whether a walk from the pending nodes on gets to a node at some depth: the node is pending, or its
parent was visited and asked for the children.
-/
inductive Due (pending : List (Node × Nat)) (log : List Visit) : Node → Nat → Prop
  | start {n : Node} {depth : Nat} : (n, depth) ∈ pending → Due pending log n depth
  | child {v : Visit} {c : Node} : Due pending log v.node v.depth → v ∈ log → v.descends →
    c ∈ v.node.namedChildren → Due pending log c (v.depth + 1)

/--
The pending nodes stand in preorder, and none of them is below another.
-/
def Ahead (pending : List (Node × Nat)) : Prop :=
  pending.Pairwise fun a b => a.1.index + a.1.size ≤ b.1.index

/--
What is pending once `n` is done with.
-/
def next (n : Node) (depth : Nat) (descends : Bool) (pending : List (Node × Nat)) :
    List (Node × Nat) :=
  (if descends then n.namedChildren.map (·, depth + 1) else []) ++ pending

section Stack

variable {n : Node} {depth : Nat} {descends : Bool} {pending : List (Node × Nat)}

theorem mem_next {r : Node × Nat} :
    r ∈ next n depth descends pending ↔
      (descends ∧ r.1 ∈ n.namedChildren ∧ r.2 = depth + 1) ∨ r ∈ pending := by
  obtain ⟨c, d⟩ := r
  cases descends with
  | false => simp [next]
  | true =>
    simp only [next, if_true, List.mem_append, List.mem_map, Prod.mk.injEq, true_and]
    grind

theorem index_lt_of_mem_next (h : Ahead ((n, depth) :: pending)) {r : Node × Nat}
    (hr : r ∈ next n depth descends pending) : n.index < r.1.index := by
  rcases mem_next.1 hr with ⟨-, hchild, -⟩ | hpending
  · exact Node.index_lt_of_mem_children (Node.mem_children_of_mem_namedChildren hchild)
  · have hahead := (List.pairwise_cons.1 h).1 r hpending
    have := n.size_pos
    simp only at hahead
    omega

theorem Ahead.next (h : Ahead ((n, depth) :: pending)) :
    Ahead (next n depth descends pending) := by
  obtain ⟨hfirst, hpending⟩ := List.pairwise_cons.1 h
  unfold Scope.next Ahead
  cases descends with
  | false => exact hpending
  | true =>
    rw [if_pos rfl, List.pairwise_append, List.pairwise_map]
    refine ⟨Node.pairwise_index_namedChildren n, hpending, ?_⟩
    intro a ha b hb
    obtain ⟨c, hc, rfl⟩ := List.mem_map.1 ha
    have hinside :=
      Node.index_add_size_of_mem_children (Node.mem_children_of_mem_namedChildren hc)
    exact hinside.trans (hfirst b hb)

variable {log : List Visit}

theorem Due.index_lt {n m : Node} {d : Nat} (h : Due pending log m d)
    (hpending : ∀ r ∈ pending, n.index < r.1.index) : n.index < m.index := by
  induction h with
  | start hmem => exact hpending _ hmem
  | child _ _ _ hc ih =>
    exact ih.trans (Node.index_lt_of_mem_children (Node.mem_children_of_mem_namedChildren hc))

theorem Due.depth_le {m : Node} {d : Nat} (h : Due [(n, depth)] log m d) : depth ≤ d := by
  induction h with
  | start hmem =>
    obtain ⟨-, rfl⟩ := Prod.mk.inj (List.mem_singleton.1 hmem)
    exact Nat.le_refl _
  | child _ _ _ _ ih => exact Nat.le_succ_of_le ih

variable (descends) in
/--
A step of the walk: `here` is the visit of the first pending node, or nothing if that node is beyond
the limit.
-/
theorem due_cons_iff (here : List Visit)
    (hhere : ∀ v ∈ here, v.node = n ∧ v.depth = depth ∧ v.descends = descends)
    (hdescends : descends → here ≠ [])
    (hlog : ∀ v ∈ log, Due (next n depth descends pending) log v.node v.depth) {m : Node}
    {d : Nat} :
    Due ((n, depth) :: pending) (here ++ log) m d ↔
      (m = n ∧ d = depth) ∨ Due (next n depth descends pending) log m d := by
  constructor
  · intro h
    induction h with
    | start hmem =>
      rcases List.mem_cons.1 hmem with heq | hpending
      · exact .inl (Prod.mk.inj heq)
      · exact .inr (.start (mem_next.2 (.inr hpending)))
    | @child v c _ hv hasked hc ih =>
      right
      rcases List.mem_append.1 hv with hv | hv
      · obtain ⟨hnode, hdepth, hsame⟩ := hhere v hv
        rw [hsame] at hasked
        rw [hnode] at hc
        rw [hdepth]
        exact .start (mem_next.2 (.inl ⟨hasked, hc, rfl⟩))
      · exact .child (hlog v hv) hv hasked hc
  · rintro (⟨rfl, rfl⟩ | h)
    · exact .start List.mem_cons_self
    · induction h with
      | start hmem =>
        rcases mem_next.1 hmem with ⟨hasked, hc, hd⟩ | hpending
        · obtain ⟨v, hv⟩ := List.exists_mem_of_ne_nil here (hdescends hasked)
          obtain ⟨hnode, hdepth, hsame⟩ := hhere v hv
          simp only at hc hd
          rw [hd, ← hdepth]
          apply Due.child _ (List.mem_append_left _ hv) (hsame.trans hasked) (hnode ▸ hc)
          rw [hnode, hdepth]
          exact .start List.mem_cons_self
        · exact .start (List.mem_cons_of_mem _ hpending)
      | child _ hv hasked hc ih => exact .child ih (List.mem_append_right _ hv) hasked hc

/--
A log of a walk from the pending nodes on, and the nodes that were reached beyond the limit.
-/
structure Covers (limit : Nat) (pending : List (Node × Nat)) (log : List Visit)
    (beyond : List Node) : Prop where
  ordered : log.Pairwise fun a b => a.node.index < b.node.index
  visited_iff : ∀ m d, (∃ v ∈ log, v.node = m ∧ v.depth = d) ↔ d ≤ limit ∧ Due pending log m d
  beyond_ordered : beyond.Pairwise fun a b => a.index < b.index
  beyond_iff : ∀ m, m ∈ beyond ↔ ∃ d, limit < d ∧ Due pending log m d

namespace Covers

variable {limit : Nat} {beyond : List Node}

theorem nil (limit : Nat) : Covers limit [] [] [] := by
  have hdue : ∀ m d, ¬ Due [] [] m d := by
    intro m d h
    cases h with
    | start hmem => cases hmem
    | child _ hv _ _ => cases hv
  constructor
  · exact .nil
  · simp [hdue]
  · exact .nil
  · simp [hdue]

theorem due_of_mem (h : Covers limit pending log beyond) {v : Visit} (hv : v ∈ log) :
    Due pending log v.node v.depth :=
  ((h.visited_iff _ _).1 ⟨v, hv, rfl, rfl⟩).2

theorem cons_beyond (h : Covers limit pending log beyond) (hahead : Ahead ((n, depth) :: pending))
    (hdepth : limit < depth) : Covers limit ((n, depth) :: pending) log (n :: beyond) := by
  have hdue : ∀ m d, Due ((n, depth) :: pending) log m d ↔
      (m = n ∧ d = depth) ∨ Due pending log m d :=
    fun m d => due_cons_iff false [] (List.forall_mem_nil _) Bool.false_ne_true.elim
      fun v hv => h.due_of_mem hv
  constructor
  · exact h.ordered
  · intro m d
    rw [h.visited_iff, hdue]
    grind
  · rw [List.pairwise_cons]
    refine ⟨?_, h.beyond_ordered⟩
    intro m hm
    obtain ⟨d, -, hm⟩ := (h.beyond_iff m).1 hm
    apply hm.index_lt
    intro r hr
    have hnext : r ∈ next n depth false pending := mem_next.2 (.inr hr)
    exact index_lt_of_mem_next hahead hnext
  · intro m
    rw [List.mem_cons, h.beyond_iff]
    constructor
    · rintro (rfl | ⟨d, hd, hm⟩)
      · exact ⟨depth, hdepth, (hdue m depth).2 (.inl ⟨rfl, rfl⟩)⟩
      · exact ⟨d, hd, (hdue m d).2 (.inr hm)⟩
    · rintro ⟨d, hd, hm⟩
      rcases (hdue m d).1 hm with ⟨rfl, -⟩ | hm
      · exact .inl rfl
      · exact .inr ⟨d, hd, hm⟩

theorem cons_visit {v : Visit} (hnode : v.node = n) (hvdepth : v.depth = depth)
    (h : Covers limit (next n depth v.descends pending) log beyond)
    (hahead : Ahead ((n, depth) :: pending)) (hdepth : depth ≤ limit) :
    Covers limit ((n, depth) :: pending) (v :: log) beyond := by
  have hdue : ∀ m d, Due ((n, depth) :: pending) (v :: log) m d ↔
      (m = n ∧ d = depth) ∨ Due (next n depth v.descends pending) log m d := by
    intro m d
    apply due_cons_iff v.descends [v]
    · simp [hnode, hvdepth]
    · simp
    · exact fun w hw => h.due_of_mem hw
  constructor
  · rw [List.pairwise_cons]
    refine ⟨?_, h.ordered⟩
    intro w hw
    rw [hnode]
    exact (h.due_of_mem hw).index_lt fun r hr => index_lt_of_mem_next hahead hr
  · intro m d
    rw [hdue, List.exists_mem_cons_iff, h.visited_iff]
    grind
  · exact h.beyond_ordered
  · intro m
    rw [h.beyond_iff]
    simp only [hdue]
    grind

/--
Only the first depth beyond the limit is reached, or the start if that is beyond the limit itself.
-/
theorem depth_of_beyond {m : Node} {d : Nat} (h : Covers limit [(n, depth)] log beyond)
    (hd : limit < d) (hm : Due [(n, depth)] log m d) : d = max depth (limit + 1) := by
  cases hm with
  | start hmem =>
    obtain ⟨-, rfl⟩ := Prod.mk.inj (List.mem_singleton.1 hmem)
    omega
  | @child v c hv hmem _ _ =>
    have hlimit := ((h.visited_iff _ _).1 ⟨v, hmem, rfl, rfl⟩).1
    have hdepth := hv.depth_le
    omega

end Covers

end Stack

/-! Runs -/

section Run

variable {σ : Type} {scope : Scope} {visit : Node → Nat → StateT σ CountM Bool} {n : Node}
  {depth : Nat} {pending : List (Node × Nat)} {s : σ} {f : Fallbacks}

theorem run_walkPending_beyond (hdepth : scope.limits.maxTreeDepth < depth) :
    ((scope.walkPending visit ((n, depth) :: pending)).run s).run f =
      ((scope.walkPending visit pending).run s).run (f + { truncatedSubtrees := 1 }) := by
  rw [walkPending]
  simp only [enter, bind_pure_comp, if_pos hdepth, liftM_map, bind_map_left, ↓reduceIte,
    Bool.false_eq_true, StateT.run_bind, StateT.run_monadLift, monadLift_self]
  rfl

theorem run_walkPending_within (hdepth : ¬ scope.limits.maxTreeDepth < depth) {descends : Bool}
    {s' : σ} {f' : Fallbacks} (hvisit : ((visit n depth).run s).run f = ((descends, s'), f')) :
    ((scope.walkPending visit ((n, depth) :: pending)).run s).run f =
      ((scope.walkPending visit (next n depth descends pending)).run s').run f' := by
  rw [walkPending]
  simp only [enter, bind_pure_comp, if_neg hdepth, liftM_pure, ↓reduceIte, pure_bind,
    StateT.run_bind, hvisit]
  cases descends with
  | false => rfl
  | true => rfl

theorem run_logged {log : List Visit} {descends : Bool} {s' : σ} {f' : Fallbacks}
    (hvisit : ((visit n depth).run s).run f = ((descends, s'), f')) :
    ((logged visit n depth).run (s, log)).run f =
      ((descends, s', log ++ [⟨n, depth, f, f', descends⟩]), f') := by
  change ((fun r : (Bool × σ) × Fallbacks =>
    ((r.1.1, r.1.2, log ++ [⟨n, depth, f, r.2, r.1.1⟩]), r.2)) (((visit n depth).run s).run f)) = _
  rw [hvisit]

/--
What the visitor itself adds to the count of truncated subtrees.
-/
def truncatedByVisits (log : List Visit) : Int :=
  (log.map fun v => (v.after.truncatedSubtrees - v.before.truncatedSubtrees : Int)).sum

/--
Writing down the visits of a walk does not change it, and the log tells which nodes are visited and
how many truncated subtrees are counted.
-/
def IsLogged (scope : Scope) (visit : Node → Nat → StateT σ CountM Bool)
    (pending : List (Node × Nat)) (s : σ) (f : Fallbacks) : Prop :=
  let run := ((scope.walkPending visit pending).run s).run f
  ∀ before, ∃ log beyond,
    ((scope.walkPending (logged visit) pending).run (s, before)).run f =
      (((), run.1.2, before ++ log), run.2) ∧
    Covers scope.limits.maxTreeDepth pending log beyond ∧
    (run.2.truncatedSubtrees : Int) =
      f.truncatedSubtrees + truncatedByVisits log + beyond.length

namespace IsLogged

variable (scope visit s f) in
theorem nil : scope.IsLogged visit [] s f := by
  intro before
  refine ⟨[], [], ?_, .nil _, ?_⟩
  · simp only [walkPending, List.append_nil]
    rfl
  · simp only [walkPending, truncatedByVisits, List.map_nil, List.sum_nil, List.length_nil]
    exact (Int.add_zero _).symm

theorem cons_beyond (h : scope.IsLogged visit pending s (f + { truncatedSubtrees := 1 }))
    (hahead : Ahead ((n, depth) :: pending)) (hdepth : scope.limits.maxTreeDepth < depth) :
    scope.IsLogged visit ((n, depth) :: pending) s f := by
  intro before
  obtain ⟨log, beyond, hrun, hcovers, hcount⟩ := h before
  have hone : (f + { truncatedSubtrees := 1 }).truncatedSubtrees = f.truncatedSubtrees + 1 := rfl
  refine ⟨log, n :: beyond, ?_, hcovers.cons_beyond hahead hdepth, ?_⟩
  · rw [run_walkPending_beyond hdepth, run_walkPending_beyond hdepth, hrun]
  · rw [run_walkPending_beyond hdepth, hcount, List.length_cons, hone]
    omega

theorem cons_visit {descends : Bool} {s' : σ} {f' : Fallbacks}
    (h : scope.IsLogged visit (next n depth descends pending) s' f')
    (hvisit : ((visit n depth).run s).run f = ((descends, s'), f'))
    (hahead : Ahead ((n, depth) :: pending)) (hdepth : ¬ scope.limits.maxTreeDepth < depth) :
    scope.IsLogged visit ((n, depth) :: pending) s f := by
  intro before
  let v : Visit := ⟨n, depth, f, f', descends⟩
  obtain ⟨log, beyond, hrun, hcovers, hcount⟩ := h (before ++ [v])
  refine ⟨v :: log, beyond, ?_, ?_, ?_⟩
  · rw [run_walkPending_within hdepth hvisit, run_walkPending_within hdepth (run_logged hvisit),
      hrun, List.append_assoc]
    rfl
  · exact hcovers.cons_visit rfl rfl hahead (Nat.le_of_not_lt hdepth)
  · rw [run_walkPending_within hdepth hvisit, hcount]
    simp only [truncatedByVisits, List.map_cons, List.sum_cons, v]
    omega

end IsLogged

theorem isLogged_of_ahead (scope : Scope) (visit : Node → Nat → StateT σ CountM Bool)
    (hahead : Ahead pending) (s : σ) (f : Fallbacks) : scope.IsLogged visit pending s f := by
  -- The first pending node is beyond the limit, or it is visited and its children, if the visitor
  -- asks for them, are put in its place.
  induction pending using walkPending.induct generalizing s f with
  | case1 => exact .nil scope visit s f
  | case2 n depth pending ih ih' =>
    by_cases hdepth : scope.limits.maxTreeDepth < depth
    case pos =>
      apply IsLogged.cons_beyond _ hahead hdepth
      exact ih' (List.pairwise_cons.1 hahead).2 s _
    case neg =>
      cases hvisit : ((visit n depth).run s).run f with
      | mk result f' =>
        obtain ⟨descends, s'⟩ := result
        apply IsLogged.cons_visit _ hvisit hahead hdepth
        have hnext : Ahead (next n depth descends pending) := hahead.next
        cases descends with
        | false => exact ih' hnext s' f'
        | true => exact ih hnext s' f'

/--
A walk has the effect of the plain recursion, whatever the visitor does. It visits the nodes that
are due within the depth limit, each once and in preorder, and besides what the visitor counts it
counts every node that is due at the first depth beyond the limit as one truncated subtree.
-/
theorem walk_visits_due_nodes (scope : Scope) (visit : Node → Nat → StateT σ CountM Bool)
    (n : Node) (depth : Nat) (s : σ) (f : Fallbacks) :
    scope.walk n depth visit = scope.traverse visit n depth ∧
    let run := ((scope.walk n depth visit).run s).run f
    ∃ (log : List Visit) (beyond : List Node),
      ((scope.walk n depth (logged visit)).run (s, [])).run f = (((), run.1.2, log), run.2) ∧
      log.Pairwise (fun a b => a.node.index < b.node.index) ∧
      (∀ m d, (∃ v ∈ log, v.node = m ∧ v.depth = d) ↔
        d ≤ scope.limits.maxTreeDepth ∧ Due [(n, depth)] log m d) ∧
      beyond.Pairwise (fun a b => a.index < b.index) ∧
      (∀ m, m ∈ beyond ↔ Due [(n, depth)] log m (max depth (scope.limits.maxTreeDepth + 1))) ∧
      (run.2.truncatedSubtrees : Int) =
        f.truncatedSubtrees + truncatedByVisits log + beyond.length := by
  refine ⟨walk_eq_traverse scope visit n depth, ?_⟩
  obtain ⟨log, beyond, hrun, hcovers, hcount⟩ :=
    isLogged_of_ahead scope visit (List.pairwise_singleton _ (n, depth)) s f []
  refine ⟨log, beyond, hrun, hcovers.ordered, hcovers.visited_iff, hcovers.beyond_ordered, ?_,
    hcount⟩
  intro m
  rw [hcovers.beyond_iff]
  constructor
  · rintro ⟨d, hd, hm⟩
    rwa [← hcovers.depth_of_beyond hd hm]
  · intro hm
    exact ⟨_, Nat.lt_of_succ_le (Nat.le_max_right _ _), hm⟩

end Run

end Scope

end Polyglot
