import Polyglot.Grammar.Python
import Polyglot.Proofs.Chains.Discovery

/-!
This module contains the search for chains as a plain recursion. The search begins a walk at every
outermost link or mark that is not below a chain found before; parts of the tree of which none lies
below another do not influence each other. The chains that it finds lie side by side and stand in
preorder.
-/

namespace Polyglot.Extract

open CountM

variable {g : Grammar} {scope : Scope}

namespace Discovery

variable {d e : Discovery} {n : Node} {ns : List Node}

theorem startsAt_congr (h : n.path ∈ d.claimed ↔ n.path ∈ e.claimed) :
    d.startsAt g n = e.startsAt g n := by
  rw [Bool.eq_iff_iff, startsAt_iff, startsAt_iff, h]

theorem newChain?_congr (h : n.path ∈ d.claimed ↔ n.path ∈ e.claimed) :
    d.newChain? g scope n = e.newChain? g scope n := by
  rw [newChain?, newChain?, startsAt_congr h]

/--
What a search finds and counts depends on the nodes that are claimed among those still to come.
-/
theorem foldl_step_of_agree (scope : Scope)
    (h : ∀ n ∈ ns, n.path ∈ d.claimed ↔ n.path ∈ e.claimed) :
    (∃ new, (ns.foldl (step g scope) d).found.toList = d.found.toList ++ new ∧
      (ns.foldl (step g scope) e).found.toList = e.found.toList ++ new) ∧
    Scope.tally (discover g scope) d ns = Scope.tally (discover g scope) e ns := by
  induction ns generalizing d e with
  | nil =>
    refine ⟨⟨[], ?_, ?_⟩, rfl⟩
    · rw [List.foldl_nil, List.append_nil]
    · rw [List.foldl_nil, List.append_nil]
  | cons n ns ih =>
    rw [List.forall_mem_cons] at h
    rw [Scope.tally, Scope.tally, cost_of_run (run_discover g scope n d),
      cost_of_run (run_discover g scope n e), startsAt_congr h.1, advance_discover]
    simp only [List.foldl_cons, step, newChain?_congr h.1]
    cases e.newChain? g scope n with
    | none =>
      obtain ⟨hfound, htally⟩ := ih h.2
      exact ⟨hfound, congrArg _ htally⟩
    | some chain =>
      have hagree : ∀ m ∈ ns, m.path ∈ (d.record g n chain).claimed ↔
          m.path ∈ (e.record g n chain).claimed := by
        intro m hm
        rw [mem_claimed_record, mem_claimed_record, h.2 m hm]
      obtain ⟨⟨new, hd, he⟩, htally⟩ := ih hagree
      refine ⟨⟨(n, chain) :: new, ?_, ?_⟩, congrArg _ htally⟩
      · rw [hd, found_record, List.append_assoc, List.singleton_append]
      · rw [he, found_record, List.append_assoc, List.singleton_append]

theorem foldl_step_of_claimed (scope : Scope)
    (h : ∀ n ∈ ns, g.isChainRoot n.kind → n.path ∈ d.claimed) :
    ns.foldl (step g scope) d = d ∧ Scope.tally (discover g scope) d ns = 0 := by
  induction ns with
  | nil => exact ⟨rfl, rfl⟩
  | cons n ns ih =>
    rw [List.forall_mem_cons] at h
    have hstart : d.startsAt g n = false := by
      rw [Bool.eq_false_iff, Ne, startsAt_iff]
      rintro ⟨hroot, hfree, -⟩
      exact hfree (h.1 hroot)
    have hstep : d.step g scope n = d := by
      simp [step, newChain?, hstart]
    rw [List.foldl_cons, Scope.tally, advance_discover, hstep,
      cost_of_run (run_discover g scope n d), hstart, (ih h.2).2]
    exact ⟨(ih h.2).1, rfl⟩

end Discovery

/--
The chains that a search over the given nodes finds.
-/
def foundIn (g : Grammar) (scope : Scope) (ns : List Node) : List (Node × CallChain) :=
  (explore g scope ns).found.toList

/--
What a search over the given nodes counts.
-/
def countedIn (g : Grammar) (scope : Scope) (ns : List Node) : Fallbacks :=
  Scope.tally (discover g scope) {} ns

theorem mem_of_mem_foundIn {ns : List Node} {e : Node × CallChain} (h : e ∈ foundIn g scope ns) :
    e.1 ∈ ns :=
  (invariant_explore g scope ns).order.subset (List.mem_map_of_mem h)

/--
Within one tree, the claimed nodes are the possible chains below the nodes of the chains found.
-/
theorem mem_claimed_explore_iff {root m : Node} {ns : List Node}
    (hns : ∀ n ∈ ns, n ∈ namedSubtree root) (hm : m ∈ namedSubtree root) :
    m.path ∈ (explore g scope ns).claimed ↔
      g.isChainRoot m.kind ∧ ∃ e ∈ foundIn g scope ns, m ∈ namedSubtree e.1 := by
  rw [(invariant_explore g scope ns).claimed]
  constructor
  · rintro ⟨e, he, k, hk, hroot, hpath⟩
    have heroot := hns e.1 (mem_of_mem_foundIn he)
    obtain ⟨_, hkroot⟩ := mem_namedSubtree_iff.1 (mem_namedSubtree_trans hk heroot)
    obtain ⟨_, hmroot⟩ := mem_namedSubtree_iff.1 hm
    obtain rfl := hkroot.eq_of_path hmroot hpath
    exact ⟨hroot, e, he, hk⟩
  · rintro ⟨hroot, e, he, hmem⟩
    exact ⟨e, he, m, hmem, hroot, rfl⟩

/--
The nodes `ms` are not below any of the nodes `ns`, all of them in one tree.
-/
structure Beside (root : Node) (ns ms : List Node) : Prop where
  left : ∀ n ∈ ns, n ∈ namedSubtree root
  right : ∀ m ∈ ms, m ∈ namedSubtree root
  apart : ∀ n ∈ ns, ∀ m ∈ ms, m ∉ namedSubtree n

theorem Beside.not_claimed {root : Node} {ns ms : List Node} (h : Beside root ns ms) {m : Node}
    (hm : m ∈ ms) : m.path ∉ (explore g scope ns).claimed := by
  rw [mem_claimed_explore_iff h.left (h.right m hm)]
  rintro ⟨-, e, he, hmem⟩
  exact h.apart e.1 (mem_of_mem_foundIn he) m hm hmem

theorem search_append {root : Node} {ns ms : List Node} (h : Beside root ns ms) :
    foundIn g scope (ns ++ ms) = foundIn g scope ns ++ foundIn g scope ms ∧
    countedIn g scope (ns ++ ms) = countedIn g scope ns + countedIn g scope ms := by
  have hagree : ∀ m ∈ ms, m.path ∈ (explore g scope ns).claimed ↔
      m.path ∈ ({} : Discovery).claimed := by
    intro m hm
    simp [h.not_claimed hm]
  obtain ⟨⟨new, hns, hempty⟩, htally⟩ := Discovery.foldl_step_of_agree scope hagree
  constructor
  · have hnew : foundIn g scope ms = new := hempty
    rw [hnew, foundIn, explore, List.foldl_append]
    exact hns
  · rw [countedIn, Scope.tally_append, advance_discover]
    exact congrArg _ htally

/--
Whether a walk may begin at `n`, as far as the node itself is concerned.
-/
def isOutermost (g : Grammar) (n : Node) : Bool :=
  g.isChainRoot n.kind && !n.parentKind?.any g.isLink

/--
The chain of a walk that begins at `n`, if it holds a call.
-/
def chainAt? (g : Grammar) (scope : Scope) (n : Node) : Option CallChain :=
  (callChain g scope n).value.filter (·.hasCall)

/--
The nodes at which the search begins a walk, from a node of the given depth on.
-/
def attempts (g : Grammar) (scope : Scope) (n : Node) (depth : Nat) : List Node :=
  if scope.limits.maxTreeDepth < depth then []
  else
    let below := n.namedChildren.attach.flatMap fun ⟨c, _⟩ => attempts g scope c (depth + 1)
    if isOutermost g n then
      if (chainAt? g scope n).isSome then [n] else n :: below
    else below
termination_by n.size
decreasing_by exact Node.size_lt_of_mem_namedChildren ‹_›

theorem attempts_eq (g : Grammar) (scope : Scope) (n : Node) (depth : Nat) :
    attempts g scope n depth =
      if scope.limits.maxTreeDepth < depth then []
      else if isOutermost g n then
        if (chainAt? g scope n).isSome then [n]
        else n :: n.namedChildren.flatMap (attempts g scope · (depth + 1))
      else n.namedChildren.flatMap (attempts g scope · (depth + 1)) := by
  rw [attempts]
  simp

section Attempts

variable {n : Node} {depth : Nat}

theorem attempts_of_inner (h : isOutermost g n = false)
    (hdepth : depth ≤ scope.limits.maxTreeDepth) :
    attempts g scope n depth = n.namedChildren.flatMap (attempts g scope · (depth + 1)) := by
  rw [attempts_eq, if_neg (Nat.not_lt_of_le hdepth), h, if_neg Bool.false_ne_true]

theorem attempts_of_none (houter : isOutermost g n)
    (hdepth : depth ≤ scope.limits.maxTreeDepth) (h : chainAt? g scope n = none) :
    attempts g scope n depth = n :: n.namedChildren.flatMap (attempts g scope · (depth + 1)) := by
  rw [attempts_eq, if_neg (Nat.not_lt_of_le hdepth), if_pos houter, h, Option.isSome_none,
    if_neg Bool.false_ne_true]

theorem attempts_of_some {chain : CallChain} (houter : isOutermost g n)
    (hdepth : depth ≤ scope.limits.maxTreeDepth) (h : chainAt? g scope n = some chain) :
    attempts g scope n depth = [n] := by
  rw [attempts_eq, if_neg (Nat.not_lt_of_le hdepth), if_pos houter, h, Option.isSome_some,
    if_pos rfl]

theorem attempts_eq_nil (h : isOutermost g n = false)
    (hbelow : ∀ c ∈ n.namedChildren, attempts g scope c (depth + 1) = []) :
    attempts g scope n depth = [] := by
  rw [attempts_eq, h, if_neg Bool.false_ne_true]
  split
  · rfl
  · exact List.flatMap_eq_nil_iff.2 hbelow

end Attempts

/--
The chains at the given nodes.
-/
def chainsAt (g : Grammar) (scope : Scope) (ns : List Node) : List (Node × CallChain) :=
  ns.filterMap fun n => (chainAt? g scope n).map (n, ·)

def costAt (g : Grammar) (scope : Scope) (ns : List Node) : Fallbacks :=
  (ns.map fun n => (callChain g scope n).cost).sum

theorem Discovery.startsAt_empty (n : Node) : ({} : Discovery).startsAt g n = isOutermost g n := by
  simp [startsAt, isOutermost]

theorem Discovery.newChain?_empty (n : Node) :
    ({} : Discovery).newChain? g scope n =
      if isOutermost g n then chainAt? g scope n else none := by
  rw [newChain?, startsAt_empty]
  rfl

theorem countedIn_cons (n : Node) (ns : List Node) :
    countedIn g scope (n :: ns) = (if isOutermost g n then (callChain g scope n).cost else 0) +
      Scope.tally (discover g scope) (Discovery.step g scope {} n) ns := by
  rw [countedIn, Scope.tally, cost_of_run (run_discover g scope n {}), Discovery.startsAt_empty,
    advance_discover]

/--
A search that finds nothing at its first node goes on as if it had not looked there.
-/
theorem search_cons_of_none (scope : Scope) {n : Node} (ns : List Node)
    (h : isOutermost g n → chainAt? g scope n = none) :
    foundIn g scope (n :: ns) = foundIn g scope ns ∧
    countedIn g scope (n :: ns) =
      (if isOutermost g n then (callChain g scope n).cost else 0) + countedIn g scope ns := by
  have hstep : Discovery.step g scope {} n = {} := by
    unfold Discovery.step
    rw [Discovery.newChain?_empty]
    by_cases houter : isOutermost g n
    · rw [if_pos houter, h houter]
    · rw [if_neg houter]
  rw [countedIn_cons, foundIn, explore, List.foldl_cons, hstep]
  exact ⟨rfl, rfl⟩

theorem Discovery.step_empty_of_some {n : Node} {chain : CallChain} (houter : isOutermost g n)
    (hchain : chainAt? g scope n = some chain) :
    Discovery.step g scope {} n = Discovery.record {} g n chain := by
  unfold Discovery.step
  rw [Discovery.newChain?_empty, if_pos houter, hchain]

/--
A search that finds a chain at its first node finds nothing below this node.
-/
theorem search_cons_of_some {n : Node} {ns : List Node} {chain : CallChain}
    (houter : isOutermost g n) (hchain : chainAt? g scope n = some chain)
    (hns : ∀ m ∈ ns, m ∈ namedSubtree n) :
    foundIn g scope (n :: ns) = [(n, chain)] ∧
    countedIn g scope (n :: ns) = (callChain g scope n).cost := by
  have hstep := Discovery.step_empty_of_some houter hchain
  have hclaimed : ∀ m ∈ ns, g.isChainRoot m.kind →
      m.path ∈ (Discovery.record {} g n chain).claimed := by
    intro m hm hroot
    rw [Discovery.mem_claimed_record]
    exact .inr ⟨m, hns m hm, hroot, rfl⟩
  obtain ⟨hfold, htally⟩ := Discovery.foldl_step_of_claimed scope hclaimed
  rw [countedIn_cons, foundIn, explore, List.foldl_cons, hstep, hfold, htally, if_pos houter,
    add_zero, Discovery.found_record]
  exact ⟨rfl, rfl⟩

theorem mem_namedSubtree_of_mem_visited {n m : Node} {depth : Nat}
    (h : m ∈ scope.visited n depth) : m ∈ namedSubtree n :=
  (scope.sublist_visited n depth).subset h

theorem mem_namedSubtree_of_mem_flatMap_visited {n m : Node} {cs : List Node} {depth : Nat}
    (hcs : ∀ c ∈ cs, c ∈ n.namedChildren) (h : m ∈ cs.flatMap (scope.visited · depth)) :
    m ∈ namedSubtree n := by
  obtain ⟨c, hc, hm⟩ := List.mem_flatMap.1 h
  apply mem_namedSubtree_trans (mem_namedSubtree_of_mem_visited hm)
  exact mem_namedSubtree_of_mem_namedChildren (mem_namedSubtree_self n) (hcs c hc)

theorem beside_children (scope : Scope) {n c : Node} {cs : List Node} (depth : Nat)
    (hcs : (c :: cs).Sublist n.namedChildren) :
    Beside n (scope.visited c depth) (cs.flatMap (scope.visited · depth)) where
  left m hm := by
    apply mem_namedSubtree_trans (mem_namedSubtree_of_mem_visited hm)
    exact mem_namedSubtree_of_mem_namedChildren (mem_namedSubtree_self n)
      (hcs.subset List.mem_cons_self)
  right m hm := by
    apply mem_namedSubtree_of_mem_flatMap_visited _ hm
    intro c hc
    exact hcs.subset (List.mem_cons_of_mem _ hc)
  apart k hk m hm hmk := by
    -- The nodes below `c` stand before those below a later child.
    obtain ⟨c', hc', hm⟩ := List.mem_flatMap.1 hm
    have hpair := (Node.pairwise_index_namedChildren n).sublist hcs
    have horder := (List.pairwise_cons.1 hpair).1 c' hc'
    have hbefore := (index_of_mem_namedSubtree
      (mem_namedSubtree_trans hmk (mem_namedSubtree_of_mem_visited hk))).2
    have hafter := (index_of_mem_namedSubtree (mem_namedSubtree_of_mem_visited hm)).1
    have := m.size_pos
    omega

theorem search_children {n : Node} (depth : Nat)
    (ih : ∀ c ∈ n.namedChildren,
      foundIn g scope (scope.visited c depth) = chainsAt g scope (attempts g scope c depth) ∧
      countedIn g scope (scope.visited c depth) = costAt g scope (attempts g scope c depth))
    {cs : List Node} (hcs : cs.Sublist n.namedChildren) :
    foundIn g scope (cs.flatMap (scope.visited · depth)) =
      chainsAt g scope (cs.flatMap (attempts g scope · depth)) ∧
    countedIn g scope (cs.flatMap (scope.visited · depth)) =
      costAt g scope (cs.flatMap (attempts g scope · depth)) := by
  induction cs with
  | nil => exact ⟨rfl, rfl⟩
  | cons c cs ihcs =>
    have hc : c ∈ n.namedChildren := hcs.subset List.mem_cons_self
    obtain ⟨hfound, hcounted⟩ :=
      search_append (g := g) (beside_children scope depth hcs)
    obtain ⟨ihfound, ihcounted⟩ := ihcs ((List.sublist_cons_self c cs).trans hcs)
    rw [List.flatMap_cons, hfound, hcounted, (ih c hc).1, (ih c hc).2, ihfound, ihcounted,
      List.flatMap_cons]
    constructor
    · exact List.filterMap_append.symm
    · rw [costAt, costAt, costAt, List.map_append, List.sum_append]

/--
The search over everything within the depth limit is the plain recursion.
-/
theorem search_visited (g : Grammar) (scope : Scope) (n : Node) (depth : Nat) :
    foundIn g scope (scope.visited n depth) = chainsAt g scope (attempts g scope n depth) ∧
    countedIn g scope (scope.visited n depth) = costAt g scope (attempts g scope n depth) := by
  induction n using namedInduction generalizing depth with
  | step n ih =>
    have hchildren := search_children (depth + 1) (fun c hc => ih c hc (depth + 1))
      (List.Sublist.refl n.namedChildren)
    rw [Scope.visited_eq, attempts_eq]
    by_cases hdepth : scope.limits.maxTreeDepth < depth
    · rw [if_pos hdepth, if_pos hdepth]
      exact ⟨rfl, rfl⟩
    rw [if_neg hdepth, if_neg hdepth]
    by_cases houter : isOutermost g n
    · rw [if_pos houter]
      cases hchain : chainAt? g scope n with
      | none =>
        obtain ⟨hfound, hcounted⟩ := search_cons_of_none scope
          (n.namedChildren.flatMap (scope.visited · (depth + 1))) (fun _ => hchain)
        rw [hfound, hcounted, hchildren.1, hchildren.2, if_pos houter]
        simp [chainsAt, costAt, hchain]
      | some chain =>
        have hbelow : ∀ m ∈ n.namedChildren.flatMap (scope.visited · (depth + 1)),
            m ∈ namedSubtree n := by
          intro m hm
          exact mem_namedSubtree_of_mem_flatMap_visited (fun c hc => hc) hm
        obtain ⟨hfound, hcounted⟩ := search_cons_of_some houter hchain hbelow
        rw [hfound, hcounted]
        simp [chainsAt, costAt, hchain]
    · obtain ⟨hfound, hcounted⟩ := search_cons_of_none scope
        (n.namedChildren.flatMap (scope.visited · (depth + 1))) (fun h => absurd h houter)
      rw [hfound, hcounted, hchildren.1, hchildren.2, if_neg houter, if_neg houter, zero_add]
      exact ⟨rfl, rfl⟩

theorem run_locatedCallChains_attempts (g : Grammar) (scope : Scope) (n : Node) (f : Fallbacks) :
    (locatedCallChains g scope n).run f =
      (chainsAt g scope (attempts g scope n 0),
        f + (costAt g scope (attempts g scope n 0) +
          { truncatedSubtrees := (scope.cutOff n 0).length })) := by
  obtain ⟨hfound, hcounted⟩ := search_visited g scope n 0
  rw [run_locatedCallChains, ← hfound, ← hcounted]
  rfl

theorem run_callChains_attempts (g : Grammar) (scope : Scope) (n : Node) (f : Fallbacks) :
    (callChains g scope n).run f =
      ((chainsAt g scope (attempts g scope n 0)).map (·.2),
        f + (costAt g scope (attempts g scope n 0) +
          { truncatedSubtrees := (scope.cutOff n 0).length })) := by
  unfold callChains
  rw [StateT.run_bind, run_locatedCallChains_attempts]
  rfl

/--
The chains of a tree are found at nodes in preorder, none of which is below another. If the spans
of the tree are in order, so are the spans of the chains.
-/
theorem locatedCallChains_side_by_side (g : Grammar) (scope : Scope) (root : Node) (f : Fallbacks) :
    let found := ((locatedCallChains g scope root).run f).1
    ((callChains g scope root).run f).1 = found.map (·.2) ∧
    (∀ e ∈ found, ((callChain g scope e.1).run f).1 = some e.2) ∧
    (found.map (·.1)).Sublist (namedSubtree root) ∧
    found.Pairwise (fun a b => a.1.index < b.1.index ∧ a.1.path ≠ b.1.path) ∧
    found.Pairwise (fun a b => a.1 ∉ namedSubtree b.1 ∧ b.1 ∉ namedSubtree a.1) ∧
    (Spanned root → found.Pairwise fun a b => a.1.label.stop ≤ b.1.label.start) := by
  intro found
  have hinv := invariant_explore g scope (scope.visited root 0)
  have hfound : found = (explore g scope (scope.visited root 0)).found.toList := by
    simp only [found, run_locatedCallChains]
  have hindex := pairwise_found g scope (pairwise_index_namedSubtree root)
  rw [← hfound] at hindex
  have hsub := sublist_found g scope root
  rw [← hfound] at hsub
  have hmem : ∀ e ∈ found, e.1 ∈ namedSubtree root := by
    intro e he
    exact hsub.subset (List.mem_map_of_mem he)
  have hapart := pairwise_apart_found g scope root
  rw [← hfound] at hapart
  refine ⟨rfl, ?_, hsub, ?_, hapart, ?_⟩
  · intro e he
    rw [hfound] at he
    rw [additive_callChain g scope e.1 f, ← hinv.chain e he]
  · apply hindex.imp_of_mem
    intro a b ha hb hab
    exact ⟨hab, ne_path_of_index_lt (hmem a ha) (hmem b hb) hab⟩
  · intro hspan
    have hpre := pairwise_found g scope hspan.pairwise
    rw [← hfound] at hpre
    apply (hpre.and hapart).imp
    rintro a b ⟨hbelow | hafter, -, hb⟩
    · exact absurd hbelow hb
    · exact hafter

/--
The tree of `a()` and `b()` on two lines.
-/
def twoCalls : Tree :=
  .node ⟨"module", true, false, none, 0, 7⟩ [
    .node ⟨"call", true, false, none, 0, 3⟩ [
      .node ⟨"identifier", true, false, some "function", 0, 1⟩ [],
      .node ⟨"argument_list", true, false, some "arguments", 1, 3⟩ []],
    .node ⟨"call", true, false, none, 4, 7⟩ [
      .node ⟨"identifier", true, false, some "function", 4, 5⟩ [],
      .node ⟨"argument_list", true, false, some "arguments", 5, 7⟩ []]]

theorem twoCalls_side_by_side :
    let root := Node.root (.ofString "a()\nb()") twoCalls
    let found := ((locatedCallChains Python.grammar ⟨"a.py", {}⟩ root).run {}).1
    Spanned root ∧ found.map (·.2.signature) = ["a", "b"] ∧
    found.Pairwise fun a b => a.1.label.stop ≤ b.1.label.start := by
  intro root found
  have hspan : Spanned root := by decide +kernel
  have hfound : found.map (·.2.signature) = ["a", "b"] := by
    simp only [found, run_locatedCallChains_attempts]
    decide +kernel
  obtain ⟨-, -, -, -, -, horder⟩ :=
    locatedCallChains_side_by_side Python.grammar ⟨"a.py", {}⟩ root {}
  exact ⟨hspan, hfound, horder hspan⟩

end Polyglot.Extract
