import Mathlib.Logic.Relation
import Polyglot.Extract.Chains
import Polyglot.Proofs.Arguments

/-!
This module contains the walk along one chain as a list of nodes. The walk goes from one node to the
next until a step ends it; each node on the way leaves at most one segment, and the last one decides
on the receiver.
-/

namespace Polyglot

namespace ChainStep

/--
The node at which a walk goes on.
-/
def next? : ChainStep → Option Node
  | methodCall _ _ receiver => some receiver
  | invoke callee _ => some callee
  | field _ base => some base
  | suspend _ operand => some operand
  | transparent inner => some inner
  | _ => none

def isCall : ChainStep → Bool
  | methodCall .. | freeCall .. | pathCall .. | macroCall .. | invoke .. => true
  | _ => false

/--
The receiver of a chain whose walk ends at `n` with the given step.
-/
def receiver? (n : Node) : ChainStep → Option Node
  | pathCall path _ _ => path
  | macroCall path _ => path
  | terminal | unclassified => some n
  | _ => none

end ChainStep

namespace Extract

open CountM

/--
The segment that `n` leaves on a walk that treats it as the given step.
-/
def stepSegment (g : Grammar) (scope : Scope) (n : Node) : ChainStep → CountM (Option Segment)
  | .methodCall name list _ | .freeCall name list | .pathCall _ name list => do
    return some (.call name.text (← callArguments g scope list) name.start)
  | .macroCall _ name => return some (.call (name.text ++ "!") [] name.start)
  | .invoke _ list => do
    return some (.call "()" (← callArguments g scope list) ((list.map Node.start).getD n.stop))
  | .field name _ => return some (.access name.text name.start)
  | .suspend mark _ =>
    return some (.access mark (((n.childOfKind? [mark]).map Node.start).getD n.start))
  | .transparent _ | .terminal => return none
  | .unclassified => do
    CountM.opaqueReceiver
    return none

def segmentAt (g : Grammar) (scope : Scope) (n : Node) : CountM (Option Segment) :=
  stepSegment g scope n (g.classifyChain n)

/--
The nodes that a walk from `n` comes by, or `none` if it does not end within the given steps.
-/
def cursors (g : Grammar) : (steps : Nat) → Node → Option (List Node)
  | 0, _ => none
  | steps + 1, n =>
    match (g.classifyChain n).next? with
    | some m => (cursors g steps m).map (n :: ·)
    | none => some [n]

/--
The node whose text is the receiver of the chain at `n`.
-/
def receiverNode? (g : Grammar) : (steps : Nat) → Node → Option Node
  | 0, _ => none
  | steps + 1, n =>
    match (g.classifyChain n).next? with
    | some m => receiverNode? g steps m
    | none => (g.classifyChain n).receiver? n

theorem walkChain_succ (g : Grammar) (scope : Scope) (steps : Nat) (n : Node)
    (segments : List Segment) :
    walkChain g scope (steps + 1) n segments = (do
      let segment ← segmentAt g scope n
      match (g.classifyChain n).next? with
      | some m => walkChain g scope steps m (segment.toList ++ segments)
      | none =>
        return some ((((g.classifyChain n).receiver? n).map Node.text).getD "",
          segment.toList ++ segments)) := by
  rw [walkChain, segmentAt]
  cases g.classifyChain n with
  | _ => simp [stepSegment, ChainStep.next?, ChainStep.receiver?]

section Related

variable {R : ∀ {α : Type}, CountM α → CountM α → Prop} (hR : Congruence R) {g : Grammar}
  {s t : Scope}

include hR

theorem rel_callArguments (hargs : ∀ n, R (argument g s n) (argument g t n))
    (list : Option Node) : R (callArguments g s list) (callArguments g t list) := by
  cases list with
  | none => apply hR.pure_rel
  | some list => exact hR.mapM_rel hargs _

theorem rel_segmentAt (hargs : ∀ n, R (argument g s n) (argument g t n))
    (hreceiver : R opaqueReceiver opaqueReceiver) (n : Node) :
    R (segmentAt g s n) (segmentAt g t n) := by
  have hlist := rel_callArguments hR hargs
  unfold segmentAt
  cases g.classifyChain n with
  | methodCall name list receiver => exact hR.bind_pure_rel (hlist list) _
  | freeCall name list => exact hR.bind_pure_rel (hlist list) _
  | pathCall path name list => exact hR.bind_pure_rel (hlist list) _
  | invoke callee list => exact hR.bind_pure_rel (hlist list) _
  | unclassified => exact hR.bind_pure_rel hreceiver _
  | _ => apply hR.pure_rel

theorem rel_walkChain (hargs : ∀ n, R (argument g s n) (argument g t n))
    (hreceiver : R opaqueReceiver opaqueReceiver) {k : Nat}
    (hlimit : ∀ n segments, R (walkChain g s 0 n segments) (walkChain g t k n segments))
    (steps : Nat) (n : Node) (segments : List Segment) :
    R (walkChain g s steps n segments) (walkChain g t (steps + k) n segments) := by
  induction steps generalizing n segments with
  | zero =>
    rw [Nat.zero_add]
    exact hlimit n segments
  | succ steps ih =>
    rw [Nat.add_right_comm, walkChain_succ, walkChain_succ]
    apply hR.bind_rel (rel_segmentAt hR hargs hreceiver n)
    intro segment
    cases (g.classifyChain n).next? with
    | none => apply hR.pure_rel
    | some m => exact ih m _

end Related

theorem additive_callArguments (g : Grammar) (scope : Scope) (list : Option Node) :
    (callArguments g scope list).Additive :=
  rel_callArguments congruence_additive (t := scope) (additive_argument g scope) list

theorem additive_segmentAt (g : Grammar) (scope : Scope) (n : Node) :
    (segmentAt g scope n).Additive :=
  rel_segmentAt congruence_additive (t := scope) (additive_argument g scope)
    additive_opaqueReceiver n

theorem additive_walkChain (g : Grammar) (scope : Scope) (steps : Nat) (n : Node)
    (segments : List Segment) : (walkChain g scope steps n segments).Additive := by
  apply rel_walkChain congruence_additive (t := scope) (additive_argument g scope)
    additive_opaqueReceiver (k := 0)
  intro n segments
  exact additive_bind_pure additive_depthLimitedChain _

section Step

variable {g : Grammar} {n : Node} (scope : Scope) (steps : Nat) (segments : List Segment)

theorem value_walkChain_of_next {m : Node} (h : (g.classifyChain n).next? = some m) :
    (walkChain g scope (steps + 1) n segments).value =
      (walkChain g scope steps m ((segmentAt g scope n).value.toList ++ segments)).value := by
  rw [walkChain_succ]
  simp only [h]
  apply value_bind (additive_segmentAt g scope n)
  intro segment
  apply additive_walkChain

theorem value_walkChain_of_end (h : (g.classifyChain n).next? = none) :
    (walkChain g scope (steps + 1) n segments).value =
      some ((((g.classifyChain n).receiver? n).map Node.text).getD "",
        (segmentAt g scope n).value.toList ++ segments) := by
  rw [walkChain_succ]
  simp only [h]
  exact value_bind_pure (additive_segmentAt g scope n) _

theorem cost_walkChain_of_next {m : Node} (h : (g.classifyChain n).next? = some m) :
    (walkChain g scope (steps + 1) n segments).cost =
      (segmentAt g scope n).cost +
        (walkChain g scope steps m ((segmentAt g scope n).value.toList ++ segments)).cost := by
  rw [walkChain_succ]
  simp only [h]
  apply cost_bind (additive_segmentAt g scope n)
  intro segment
  apply additive_walkChain

theorem cost_walkChain_of_end (h : (g.classifyChain n).next? = none) :
    (walkChain g scope (steps + 1) n segments).cost = (segmentAt g scope n).cost := by
  rw [walkChain_succ]
  simp only [h]
  rw [cost_bind (additive_segmentAt g scope n) fun _ => additive_pure _, cost_pure, add_zero]

end Step

/--
The segments of a walk, in written order.
-/
def segmentsOf (g : Grammar) (scope : Scope) (cs : List Node) : List Segment :=
  cs.reverse.filterMap fun m => (segmentAt g scope m).value

theorem segmentsOf_nil (g : Grammar) (scope : Scope) : segmentsOf g scope [] = [] := rfl

theorem segmentsOf_cons (g : Grammar) (scope : Scope) (n : Node) (cs : List Node) :
    segmentsOf g scope (n :: cs) = segmentsOf g scope cs ++ (segmentAt g scope n).value.toList := by
  simp only [segmentsOf, List.reverse_cons, List.filterMap_append, List.filterMap_cons,
    List.filterMap_nil]
  cases (segmentAt g scope n).value with
  | none => rfl
  | some segment => rfl

theorem value_walkChain (g : Grammar) (scope : Scope) (steps : Nat) (n : Node)
    (segments : List Segment) :
    (walkChain g scope steps n segments).value =
      (cursors g steps n).map fun cs =>
        (((receiverNode? g steps n).map Node.text).getD "", segmentsOf g scope cs ++ segments) := by
  induction steps generalizing n segments with
  | zero => rfl
  | succ steps ih =>
    rw [cursors, receiverNode?]
    cases hnext : (g.classifyChain n).next? with
    | none =>
      rw [value_walkChain_of_end scope steps segments hnext, Option.map_some, segmentsOf_cons,
        segmentsOf_nil, List.nil_append]
    | some m =>
      -- The segment of `n` is written behind those of the nodes that are still to come.
      rw [value_walkChain_of_next scope steps segments hnext, ih]
      simp only [Option.map_map]
      congr 1
      funext cs
      simp [segmentsOf_cons]

/--
The fallbacks other than chains beyond the limit.
-/
def besideDepthLimitedChains : AddSubmonoid Fallbacks where
  carrier := { f | f.depthLimitedChains = 0 }
  zero_mem' := rfl
  add_mem' := by
    intro f f' (hf : f.depthLimitedChains = 0) (hf' : f'.depthLimitedChains = 0)
    exact congrArg₂ (· + ·) hf hf'

theorem depthLimitedChains_segmentAt (g : Grammar) (scope : Scope) (n : Node) :
    (segmentAt g scope n).cost.depthLimitedChains = 0 := by
  have hR := congruence_spendsIn besideDepthLimitedChains
  have hunknown : unknownArg.SpendsIn besideDepthLimitedChains := ⟨additive_unknownArg, rfl⟩
  have hreceiver : opaqueReceiver.SpendsIn besideDepthLimitedChains :=
    ⟨additive_opaqueReceiver, rfl⟩
  have hargs : ∀ n, (argument g scope n).SpendsIn besideDepthLimitedChains := by
    apply rel_argumentAt hR hunknown (k := 0)
    intro n
    exact ⟨additive_argumentAt g 0 n, rfl⟩
  exact (rel_segmentAt hR (t := scope) hargs hreceiver n).2

/--
A walk counts as beyond the limit if it does not end within its steps, and then once.
-/
theorem depthLimitedChains_walkChain (g : Grammar) (scope : Scope) (steps : Nat) (n : Node)
    (segments : List Segment) :
    (walkChain g scope steps n segments).cost.depthLimitedChains =
      if (cursors g steps n).isSome then 0 else 1 := by
  induction steps generalizing n segments with
  | zero => rfl
  | succ steps ih =>
    rw [cursors]
    cases hnext : (g.classifyChain n).next? with
    | none =>
      rw [cost_walkChain_of_end scope steps segments hnext, depthLimitedChains_segmentAt]
      rfl
    | some m =>
      rw [cost_walkChain_of_next scope steps segments hnext, Fallbacks.depthLimitedChains_add,
        depthLimitedChains_segmentAt, ih, Nat.zero_add]
      simp only [Option.isSome_map]

/--
The chain at `n` with the given parts, if there is a segment.
-/
def chainOf? (scope : Scope) (n : Node) (receiver : String) : List Segment → Option CallChain
  | [] => none
  | segments =>
    some { receiver, segments, raw := n.text, file := scope.file, start := n.start, stop := n.stop }

theorem callChain_eq (g : Grammar) (scope : Scope) (n : Node) :
    callChain g scope n = (do
      let found ← walkChain g scope scope.limits.maxChainDepth n []
      return found.bind fun found => chainOf? scope n found.1 found.2) := by
  unfold callChain
  congr 1
  funext found
  cases found with
  | none => rfl
  | some found =>
    obtain ⟨receiver, segments⟩ := found
    cases segments with
    | nil => rfl
    | cons segment segments => rfl

theorem additive_callChain (g : Grammar) (scope : Scope) (n : Node) :
    (callChain g scope n).Additive := by
  rw [callChain_eq]
  exact additive_bind_pure (additive_walkChain g scope _ n []) _

theorem value_callChain (g : Grammar) (scope : Scope) (n : Node) :
    (callChain g scope n).value =
      (cursors g scope.limits.maxChainDepth n).bind fun cs =>
        chainOf? scope n
          (((receiverNode? g scope.limits.maxChainDepth n).map Node.text).getD "")
          (segmentsOf g scope cs) := by
  rw [callChain_eq, value_bind_pure (additive_walkChain g scope _ n []), value_walkChain]
  cases cursors g scope.limits.maxChainDepth n with
  | none => rfl
  | some cs => rw [Option.map_some, Option.bind_some, Option.bind_some, List.append_nil]

theorem depthLimitedChains_callChain (g : Grammar) (scope : Scope) (n : Node) :
    (callChain g scope n).cost.depthLimitedChains =
      if (cursors g scope.limits.maxChainDepth n).isSome then 0 else 1 := by
  rw [callChain_eq, cost_bind (additive_walkChain g scope _ n []) fun _ => additive_pure _,
    cost_pure, add_zero, depthLimitedChains_walkChain]

/--
`Cursor g n m` holds if the walk from `n` comes by `m`, given enough steps.
-/
def Cursor (g : Grammar) : Node → Node → Prop :=
  Relation.ReflTransGen fun n m => (g.classifyChain n).next? = some m

theorem mem_cursors_self {g : Grammar} {steps : Nat} {n : Node} {cs : List Node}
    (hcs : cursors g steps n = some cs) : n ∈ cs := by
  cases steps with
  | zero => cases hcs
  | succ steps =>
    rw [cursors] at hcs
    cases hnext : (g.classifyChain n).next? with
    | none =>
      simp only [hnext, Option.some.injEq] at hcs
      rw [← hcs]
      apply List.mem_cons_self
    | some m =>
      simp only [hnext, Option.map_eq_some_iff] at hcs
      obtain ⟨cs, -, rfl⟩ := hcs
      apply List.mem_cons_self

theorem mem_cursors_of_cursor {g : Grammar} {steps : Nat} {n m : Node} {cs : List Node}
    (hcs : cursors g steps n = some cs) (h : Cursor g n m) : m ∈ cs := by
  induction h using Relation.ReflTransGen.head_induction_on generalizing steps cs with
  | refl => exact mem_cursors_self hcs
  | head hstep _ ih =>
    cases steps with
    | zero => cases hcs
    | succ steps =>
      simp only [cursors, hstep, Option.map_eq_some_iff] at hcs
      obtain ⟨cs, hcs, rfl⟩ := hcs
      exact List.mem_cons_of_mem _ (ih hcs)

end Extract

end Polyglot
