import Mathlib.Data.List.Induction
import Polyglot.Proofs.Chains.Walk
import Polyglot.Proofs.Tree.Walk

/-!
This module contains the search for the chains of a tree as a fold over the visited nodes, with the
invariant that it keeps: the claimed nodes are the possible chains below the nodes of the chains
found so far. The chains of a tree therefore lie side by side.
-/

namespace Polyglot.Extract

open CountM

namespace Discovery

/--
The chain that is found at `n`, if the search looks at `n` in the state `d`.
-/
def newChain? (d : Discovery) (g : Grammar) (scope : Scope) (n : Node) : Option CallChain :=
  if d.startsAt g n then (callChain g scope n).value.filter (·.hasCall) else none

/--
The state after the search has looked at `n`.
-/
def step (g : Grammar) (scope : Scope) (d : Discovery) (n : Node) : Discovery :=
  match d.newChain? g scope n with
  | some chain => d.record g n chain
  | none => d

end Discovery

theorem run_discover (g : Grammar) (scope : Scope) (n : Node) (d : Discovery) (f : Fallbacks) :
    ((discover g scope n).run d).run f =
      (((), d.step g scope n),
        f + if d.startsAt g n then (callChain g scope n).cost else 0) := by
  unfold discover Discovery.step Discovery.newChain?
  by_cases hstart : d.startsAt g n
  · simp only [StateT.run_bind, StateT.run_get, pure_bind, hstart, ↓reduceIte,
      StateT.run_monadLift, monadLift_self, bind_assoc, additive_callChain g scope n f]
    cases (callChain g scope n).value with
    | none => rfl
    | some chain =>
      change ((if chain.hasCall then modify (·.record g n chain) else pure () :
        StateT Discovery CountM Unit).run d).run _ = _
      by_cases hcall : chain.hasCall
      · rw [if_pos hcall, Option.filter_some, if_pos hcall]
        rfl
      · rw [if_neg hcall, Option.filter_some, if_neg hcall]
        rfl
  · simp only [StateT.run_bind, StateT.run_get, pure_bind, hstart, Bool.false_eq_true, ↓reduceIte,
      add_zero]
    rfl

theorem additive_discover (g : Grammar) (scope : Scope) (n : Node) (d : Discovery) :
    ((discover g scope n).run d).Additive :=
  additive_of_run (run_discover g scope n d)

theorem advance_discover (g : Grammar) (scope : Scope) :
    Scope.advance (discover g scope) = Discovery.step g scope := by
  funext d n
  exact congrArg Prod.snd (value_of_run (run_discover g scope n d))

/--
The state of the search after the given nodes.
-/
def explore (g : Grammar) (scope : Scope) (ns : List Node) : Discovery :=
  ns.foldl (Discovery.step g scope) {}

theorem run_locatedCallChains (g : Grammar) (scope : Scope) (n : Node) (f : Fallbacks) :
    (locatedCallChains g scope n).run f =
      ((explore g scope (scope.visited n 0)).found.toList,
        f + (Scope.tally (discover g scope) {} (scope.visited n 0) +
          { truncatedSubtrees := (scope.cutOff n 0).length })) := by
  have hsweep := scope.run_sweep (additive_discover g scope) [(n, 0)] {} f
  simp only [Scope.visitedAll, Scope.cutOffAll, List.flatMap_cons, List.flatMap_nil,
    List.append_nil, advance_discover] at hsweep
  unfold locatedCallChains
  rw [StateT.run_bind]
  change (do let p ← ((scope.sweep (discover g scope) [(n, 0)]).run {}).run f; _ : Id _) = _
  rw [hsweep]
  rfl

namespace Discovery

variable {g : Grammar} {scope : Scope} {d : Discovery} {n : Node} {ns : List Node}

theorem mem_foldl_insert (claimed : Std.HashSet (List Nat)) (ns : List Node) (path : List Nat) :
    path ∈ ns.foldl (·.insert ·.path) claimed ↔ path ∈ claimed ∨ ∃ n ∈ ns, n.path = path := by
  induction ns generalizing claimed with
  | nil => simp
  | cons n ns ih =>
    rw [List.foldl_cons, ih, Std.HashSet.mem_insert, beq_iff_eq]
    simp only [List.mem_cons, exists_eq_or_imp]
    rw [or_comm (a := n.path = path), or_assoc]

theorem mem_claimed_record (chain : CallChain) (path : List Nat) :
    path ∈ (d.record g n chain).claimed ↔
      path ∈ d.claimed ∨ ∃ m ∈ namedSubtree n, g.isChainRoot m.kind ∧ m.path = path := by
  simp only [record, mem_foldl_insert, List.mem_filter, and_assoc]

theorem found_record (chain : CallChain) :
    (d.record g n chain).found.toList = d.found.toList ++ [(n, chain)] := by
  rw [record, Array.toList_push]

theorem startsAt_iff : d.startsAt g n ↔
    g.isChainRoot n.kind ∧ n.path ∉ d.claimed ∧ n.parentKind?.any g.isLink = false := by
  simp only [startsAt, Bool.and_eq_true, Bool.not_eq_true', and_assoc]
  rw [← Bool.not_eq_true (d.claimed.contains n.path), Std.HashSet.contains_iff_mem]

theorem newChain?_eq_some_iff {chain : CallChain} : d.newChain? g scope n = some chain ↔
    d.startsAt g n ∧ (callChain g scope n).value = some chain ∧ chain.hasCall := by
  unfold newChain?
  split
  · rename_i h
    simp [h, Option.filter_eq_some_iff]
  · rename_i h
    simp [h]

/--
What the search keeps while it looks at the nodes `ns`, one after the other.
-/
structure Invariant (g : Grammar) (scope : Scope) (ns : List Node) (d : Discovery) : Prop where
  claimed : ∀ path, path ∈ d.claimed ↔
    ∃ e ∈ d.found.toList, ∃ m ∈ namedSubtree e.1, g.isChainRoot m.kind ∧ m.path = path
  chain : ∀ e ∈ d.found.toList, (callChain g scope e.1).value = some e.2
  order : (d.found.toList.map (·.1)).Sublist ns
  apart : d.found.toList.Pairwise fun a b => b.1 ∉ namedSubtree a.1

theorem invariant_empty (g : Grammar) (scope : Scope) : Invariant g scope [] {} where
  claimed := by simp
  chain := by simp
  order := List.Sublist.slnil
  apart := List.Pairwise.nil

theorem Invariant.record {chain : CallChain} (h : Invariant g scope ns d)
    (hstart : d.startsAt g n) (hchain : (callChain g scope n).value = some chain) :
    Invariant g scope (ns ++ [n]) (d.record g n chain) := by
  obtain ⟨hroot, hfree, -⟩ := startsAt_iff.1 hstart
  constructor
  · intro path
    rw [mem_claimed_record, found_record, h.claimed]
    simp [or_and_right, exists_or]
  · intro e he
    rw [found_record, List.mem_append, List.mem_singleton] at he
    rcases he with he | rfl
    · exact h.chain e he
    · exact hchain
  · rw [found_record, List.map_append]
    exact h.order.append (List.Sublist.refl [n])
  · rw [found_record, List.pairwise_append]
    refine ⟨h.apart, List.pairwise_singleton _ _, ?_⟩
    -- A possible chain below an earlier one is claimed, and the search does not start there.
    intro e he e' he' hmem
    rw [List.mem_singleton] at he'
    subst he'
    exact hfree ((h.claimed n.path).2 ⟨e, he, n, hmem, hroot, rfl⟩)

theorem Invariant.step (h : Invariant g scope ns d) :
    Invariant g scope (ns ++ [n]) (d.step g scope n) := by
  unfold Discovery.step
  cases hnew : d.newChain? g scope n with
  | none => exact { h with order := h.order.trans (List.sublist_append_left ns [n]) }
  | some chain =>
    obtain ⟨hstart, hchain, -⟩ := newChain?_eq_some_iff.1 hnew
    exact h.record hstart hchain

end Discovery

theorem invariant_explore (g : Grammar) (scope : Scope) (ns : List Node) :
    (explore g scope ns).Invariant g scope ns := by
  induction ns using List.reverseRecOn with
  | nil => exact Discovery.invariant_empty g scope
  | append_singleton ns n ih =>
    rw [explore, List.foldl_append]
    exact ih.step

theorem sublist_found (g : Grammar) (scope : Scope) (n : Node) :
    ((explore g scope (scope.visited n 0)).found.toList.map (·.1)).Sublist (namedSubtree n) :=
  (invariant_explore g scope _).order.trans (scope.sublist_visited n 0)

/--
The named nodes below `n` have spans as a parser gives them: a node contains its children, and the
children follow each other.
-/
def Spanned (n : Node) : Prop :=
  ∀ m ∈ namedSubtree n,
    (∀ c ∈ m.namedChildren, m.label.start ≤ c.label.start ∧ c.label.stop ≤ m.label.stop) ∧
    m.namedChildren.Pairwise fun c d => c.label.stop ≤ d.label.start

instance (n : Node) : Decidable (Spanned n) := by
  unfold Spanned
  infer_instance

theorem Spanned.of_mem {n m : Node} (h : Spanned n) (hm : m ∈ namedSubtree n) : Spanned m := by
  intro k hk
  exact h k (mem_namedSubtree_trans hk hm)

theorem Spanned.contains {n m : Node} (h : Spanned n) (hm : m ∈ namedSubtree n) :
    n.label.start ≤ m.label.start ∧ m.label.stop ≤ n.label.stop := by
  induction n using namedInduction with
  | step n ih =>
    have hself := mem_namedSubtree_self n
    rw [namedSubtree_eq, List.mem_cons, List.mem_flatMap] at hm
    rcases hm with rfl | ⟨c, hc, hm⟩
    · exact ⟨Nat.le_refl _, Nat.le_refl _⟩
    · have hin := (h n hself).1 c hc
      have hbelow := ih c hc (h.of_mem (mem_namedSubtree_of_mem_namedChildren hself hc)) hm
      omega

theorem Spanned.pairwise {n : Node} (h : Spanned n) :
    (namedSubtree n).Pairwise fun a b => b ∈ namedSubtree a ∨ a.label.stop ≤ b.label.start := by
  apply pairwise_namedSubtree
  · intro m _ c hc k hk
    have hc := mem_namedSubtree_of_mem_namedChildren (mem_namedSubtree_self m) hc
    exact .inl (mem_namedSubtree_trans hk hc)
  · intro m hm
    apply ((h m hm).2).imp_of_mem
    intro c d hc hd hcd a ha b hb
    right
    have hc := h.of_mem (mem_namedSubtree_of_mem_namedChildren hm hc)
    have hd := h.of_mem (mem_namedSubtree_of_mem_namedChildren hm hd)
    have := (hc.contains ha).2
    have := (hd.contains hb).1
    omega

theorem pairwise_found (g : Grammar) (scope : Scope) {R : Node → Node → Prop} {n : Node}
    (h : (namedSubtree n).Pairwise R) :
    (explore g scope (scope.visited n 0)).found.toList.Pairwise fun a b => R a.1 b.1 :=
  List.pairwise_map.1 (h.sublist (sublist_found g scope n))

theorem ne_path_of_index_lt {n a b : Node} (ha : a ∈ namedSubtree n) (hb : b ∈ namedSubtree n)
    (h : a.index < b.index) : a.path ≠ b.path := by
  intro hpath
  obtain ⟨_, ha⟩ := mem_namedSubtree_iff.1 ha
  obtain ⟨_, hb⟩ := mem_namedSubtree_iff.1 hb
  obtain rfl := ha.eq_of_path hb hpath
  omega

theorem not_mem_namedSubtree_of_index_lt {a b : Node} (h : a.index < b.index) :
    a ∉ namedSubtree b := by
  intro hmem
  have := (index_of_mem_namedSubtree hmem).1
  omega

theorem pairwise_apart_found (g : Grammar) (scope : Scope) (root : Node) :
    (explore g scope (scope.visited root 0)).found.toList.Pairwise fun a b =>
      a.1 ∉ namedSubtree b.1 ∧ b.1 ∉ namedSubtree a.1 := by
  have hindex := pairwise_found g scope (pairwise_index_namedSubtree root)
  apply (hindex.and (invariant_explore g scope _).apart).imp
  rintro a b ⟨hab, hb⟩
  exact ⟨not_mem_namedSubtree_of_index_lt hab, hb⟩

end Polyglot.Extract
