import Mathlib.Algebra.Group.Submonoid.BigOperators
import Polyglot.Proofs.Chains.Overlong
import Polyglot.Proofs.Unknowns

/-!
This module contains what is counted for a node that gives no chain. A walk that finds no segment
has normalized no arguments. A walk that hits the limit has normalized those of the links that it
came by, and their fallbacks stay counted.
-/

namespace Polyglot

/--
The argument list of a call.
-/
def ChainStep.arguments? : ChainStep → Option Node
  | methodCall _ list _ | freeCall _ list | pathCall _ _ list | invoke _ list => list
  | _ => none

namespace Extract

open CountM

/--
The nodes that a walk from `n` comes by in its first steps.
-/
def walked (g : Grammar) : (steps : Nat) → Node → List Node
  | 0, _ => []
  | steps + 1, n =>
    match (g.classifyChain n).next? with
    | some m => n :: walked g steps m
    | none => [n]

/--
What the arguments of the link `n` count.
-/
def argumentCost (g : Grammar) (scope : Scope) (n : Node) : Fallbacks :=
  ((callArguments g scope (g.classifyChain n).arguments?).run 0).2

variable {g : Grammar} {scope : Scope}

/--
A node that does not end a walk counts its arguments only.
-/
theorem cost_segmentAt_of_next {n m : Node} (h : (g.classifyChain n).next? = some m) :
    (segmentAt g scope n).cost = argumentCost g scope n := by
  have hcall (list : Option Node) (k : List Argument → Option Segment) :
      (do return k (← callArguments g scope list) : CountM (Option Segment)).cost =
        (callArguments g scope list).cost := by
    rw [cost_bind (additive_callArguments g scope list) fun _ => additive_pure _, cost_pure,
      add_zero]
  unfold segmentAt argumentCost
  cases hstep : g.classifyChain n with
  | methodCall name list receiver => exact hcall list _
  | invoke callee list => exact hcall list _
  | field name base => rfl
  | suspend mark operand => rfl
  | transparent inner => rfl
  | freeCall name list => rw [hstep] at h; cases h
  | pathCall path name list => rw [hstep] at h; cases h
  | macroCall path name => rw [hstep] at h; cases h
  | terminal => rw [hstep] at h; cases h
  | unclassified => rw [hstep] at h; cases h

/--
A node without a segment counts nothing, unless it ends the walk as an opaque receiver.
-/
theorem cost_segmentAt_of_none {n : Node} (h : (segmentAt g scope n).value = none) :
    (segmentAt g scope n).cost = 0 ∨
      (g.classifyChain n).next? = none ∧ (segmentAt g scope n).cost = { opaqueReceivers := 1 } := by
  have hcall (list : Option Node) (k : List Argument → Segment) :
      (do return some (k (← callArguments g scope list)) : CountM (Option Segment)).value ≠
        none := by
    rw [value_bind_pure (additive_callArguments g scope list)]
    exact Option.some_ne_none _
  unfold segmentAt at *
  cases hstep : g.classifyChain n with
  | methodCall name list receiver => rw [hstep] at h; exact absurd h (hcall list _)
  | freeCall name list => rw [hstep] at h; exact absurd h (hcall list _)
  | pathCall path name list => rw [hstep] at h; exact absurd h (hcall list _)
  | invoke callee list => rw [hstep] at h; exact absurd h (hcall list _)
  | macroCall path name => rw [hstep] at h; cases h
  | field name base => rw [hstep] at h; cases h
  | suspend mark operand => rw [hstep] at h; cases h
  | transparent inner => exact .inl rfl
  | terminal => exact .inl rfl
  | unclassified => exact .inr ⟨rfl, rfl⟩

/--
A walk that does not end within its steps counts the arguments of all nodes that it comes by, and
itself.
-/
theorem cost_walkChain_of_overlong {steps : Nat} {n : Node} (h : cursors g steps n = none)
    (segments : List Segment) :
    (walkChain g scope steps n segments).cost =
      ((walked g steps n).map (argumentCost g scope)).sum + { depthLimitedChains := 1 } := by
  induction steps generalizing n segments with
  | zero => rfl
  | succ steps ih =>
    rw [cursors] at h
    rw [walked]
    cases hnext : (g.classifyChain n).next? with
    | none =>
      rw [hnext] at h
      cases h
    | some m =>
      simp only [hnext, Option.map_eq_none_iff] at h
      simp only [cost_walkChain_of_next scope steps segments hnext, cost_segmentAt_of_next hnext,
        ih h, List.map_cons, List.sum_cons, add_assoc]

/--
A walk that ends without a segment counts an opaque receiver or nothing.
-/
theorem cost_walkChain_of_no_segment {steps : Nat} {n : Node} {cs : List Node}
    (hcs : cursors g steps n = some cs) (h : segmentsOf g scope cs = [])
    (segments : List Segment) :
    (walkChain g scope steps n segments).cost = 0 ∨
      (walkChain g scope steps n segments).cost = { opaqueReceivers := 1 } := by
  induction steps generalizing n cs segments with
  | zero => cases hcs
  | succ steps ih =>
    rw [cursors] at hcs
    cases hnext : (g.classifyChain n).next? with
    | none =>
      simp only [hnext, Option.some.injEq] at hcs
      rw [← hcs, segmentsOf_cons, segmentsOf_nil, List.nil_append, Option.toList_eq_nil_iff] at h
      rw [cost_walkChain_of_end scope steps segments hnext]
      exact (cost_segmentAt_of_none h).imp_right And.right
    | some m =>
      simp only [hnext, Option.map_eq_some_iff] at hcs
      obtain ⟨cs, hcs, rfl⟩ := hcs
      rw [segmentsOf_cons, List.append_eq_nil_iff, Option.toList_eq_nil_iff] at h
      obtain hcost | ⟨hend, -⟩ := cost_segmentAt_of_none h.2
      · rw [cost_walkChain_of_next scope steps segments hnext, hcost, zero_add]
        exact ih hcs h.1 _
      · rw [hnext] at hend
        cases hend

theorem argumentCost_mem (g : Grammar) (scope : Scope) (n : Node) :
    argumentCost g scope n ∈ onlyLostArguments :=
  (rel_callArguments (congruence_spendsIn onlyLostArguments) (t := scope)
    (spendsIn_argument g scope) _).2

theorem cost_callChain (g : Grammar) (scope : Scope) (n : Node) :
    (callChain g scope n).cost = (walkChain g scope scope.limits.maxChainDepth n []).cost := by
  rw [callChain_eq, cost_bind (additive_walkChain g scope _ n []) fun _ => additive_pure _,
    cost_pure, add_zero]

/--
If a node gives no chain, then its walk has hit the limit or has found no segment. In the one case
one more chain beyond the limit is counted, together with the fallbacks of the arguments that the
walk came by and nothing else. In the other case an opaque receiver is counted, or nothing.
-/
theorem count_of_no_chain (g : Grammar) (scope : Scope) (n : Node) (f : Fallbacks)
    (h : ((callChain g scope n).run f).1 = none) :
    let after := ((callChain g scope n).run f).2
    let lost := ((walked g scope.limits.maxChainDepth n).map (argumentCost g scope)).sum
    (Overlong g scope n ∧ after = f + (lost + { depthLimitedChains := 1 }) ∧
      lost = { unknownArgs := lost.unknownArgs, depthLimitedArgs := lost.depthLimitedArgs }) ∨
    (¬ Overlong g scope n ∧ (after = f ∨ after = f + { opaqueReceivers := 1 })) := by
  intro after lost
  rw [additive_callChain g scope n f] at h
  have hafter : after = f + (walkChain g scope scope.limits.maxChainDepth n []).cost := by
    simp only [after, additive_callChain g scope n f, cost_callChain]
  have hlost : lost ∈ onlyLostArguments := by
    apply AddSubmonoid.list_sum_mem
    intro cost hcost
    obtain ⟨m, -, rfl⟩ := List.mem_map.1 hcost
    apply argumentCost_mem
  cases hcs : cursors g scope.limits.maxChainDepth n with
  | none =>
    rw [cost_walkChain_of_overlong hcs] at hafter
    exact .inl ⟨overlong_iff.2 hcs, hafter, hlost⟩
  | some cs =>
    have hshort : ¬ Overlong g scope n := by
      rw [overlong_iff, hcs]
      exact Option.some_ne_none cs
    have hnone : segmentsOf g scope cs = [] := by
      simp only [value_callChain, hcs, Option.bind_some] at h
      unfold chainOf? at h
      split at h
      · assumption
      · cases h
    refine .inr ⟨hshort, ?_⟩
    obtain hcost | hcost := cost_walkChain_of_no_segment hcs hnone []
    · left
      rw [hafter, hcost, add_zero]
    · right
      rw [hafter, hcost]

/--
The tree of `a.b(*c)`.
-/
def spreadCall : Tree :=
  .node ⟨"call", true, false, none, 0, 7⟩ [
    .node ⟨"attribute", true, false, some "function", 0, 3⟩ [
      .node ⟨"identifier", true, false, some "object", 0, 1⟩ [],
      .node ⟨".", false, false, none, 1, 2⟩ [],
      .node ⟨"identifier", true, false, some "attribute", 2, 3⟩ []],
    .node ⟨"argument_list", true, false, some "arguments", 3, 7⟩ [
      .node ⟨"(", false, false, none, 3, 4⟩ [],
      .node ⟨"list_splat", true, false, none, 4, 6⟩ [
        .node ⟨"*", false, false, none, 4, 5⟩ [],
        .node ⟨"identifier", true, false, none, 5, 6⟩ []],
      .node ⟨")", false, false, none, 6, 7⟩ []]]

/--
The unknown argument of a chain beyond the limit stays counted although there is no chain.
-/
theorem argument_of_dropped_chain_counted :
    let scope : Scope := ⟨"a.py", { maxChainDepth := 1 }⟩
    let run := (callChain Python.grammar scope (.root (.ofString "a.b(*c)") spreadCall)).run {}
    run.1 = none ∧ run.2 = { unknownArgs := 1, depthLimitedChains := 1 } := by
  decide +kernel

theorem spreadCall_count :
    let scope : Scope := ⟨"a.py", { maxChainDepth := 1 }⟩
    let root := Node.root (.ofString "a.b(*c)") spreadCall
    let run := (callChain Python.grammar scope root).run { unknownArgs := 2 }
    run.1 = none ∧ Overlong Python.grammar scope root ∧
      run.2 = { unknownArgs := 2 } + (({ unknownArgs := 1 } : Fallbacks) +
        { depthLimitedChains := 1 }) := by
  intro scope root run
  have hnone : run.1 = none := by decide +kernel
  have hlong : Overlong Python.grammar scope root := by decide +kernel
  have hlost : ((walked Python.grammar 1 root).map (argumentCost Python.grammar scope)).sum =
      { unknownArgs := 1 } := by
    decide +kernel
  obtain ⟨-, hafter, -⟩ | ⟨hshort, -⟩ :=
    count_of_no_chain Python.grammar scope root { unknownArgs := 2 } hnone
  · rw [hlost] at hafter
    exact ⟨hnone, hlong, hafter⟩
  · exact absurd hlong hshort

end Extract

end Polyglot
