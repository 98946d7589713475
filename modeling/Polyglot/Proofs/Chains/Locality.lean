import Mathlib.Data.List.Forall2
import Polyglot.Proofs.Limits.Chains
import Polyglot.Proofs.Locality

/-!
This module contains the fact that the search for chains works statement by statement. The chains
below a node that begins none itself are those of its children, one child after the other, and what
is found in a child depends on the child and on the kind of its parent only.
-/

namespace Polyglot

/-! Chains from the inside -/

namespace ChainStep

def map (f : Node → Node) : ChainStep → ChainStep
  | methodCall name arguments receiver => methodCall (f name) (arguments.map f) (f receiver)
  | freeCall name arguments => freeCall (f name) (arguments.map f)
  | pathCall path name arguments => pathCall (path.map f) (f name) (arguments.map f)
  | macroCall path name => macroCall (path.map f) (f name)
  | invoke callee arguments => invoke (f callee) (arguments.map f)
  | field name base => field (f name) (f base)
  | suspend mark operand => suspend mark (f operand)
  | transparent inner => transparent (f inner)
  | terminal => terminal
  | unclassified => unclassified

variable (f : Node → Node)

theorem map_ofInner (inner : Option Node) : (ofInner inner).map f = ofInner (inner.map f) := by
  cases inner with
  | none => rfl
  | some inner => rfl

theorem map_ofOperand (mark : String) (operand : Option Node) :
    (ofOperand mark operand).map f = ofOperand mark (operand.map f) := by
  cases operand with
  | none => rfl
  | some operand => rfl

theorem map_ofField (name base : Option Node) :
    (ofField name base).map f = ofField (name.map f) (base.map f) := by
  cases name with
  | none => rfl
  | some name =>
    cases base with
    | none => rfl
    | some base => rfl

theorem map_ofMethod (callee : Node) (arguments name receiver : Option Node) :
    (ofMethod callee arguments name receiver).map f =
      ofMethod (f callee) (arguments.map f) (name.map f) (receiver.map f) := by
  cases name with
  | none => rfl
  | some name =>
    cases receiver with
    | none => rfl
    | some receiver => rfl

theorem next?_map (step : ChainStep) : (step.map f).next? = step.next?.map f := by
  cases step with
  | _ => rfl

theorem receiver?_map (step : ChainStep) (n : Node) :
    (step.map f).receiver? (f n) = (step.receiver? n).map f := by
  cases step with
  | _ => rfl

end ChainStep

section Grammars

variable (above : List Frame) (n : Node)

@[simp]
theorem Node.childOfKind?_graft (kinds : List String) :
    (n.graft above).childOfKind? kinds = (n.childOfKind? kinds).map (graft above) := by
  rw [childOfKind?, children_graft, List.find?_map]
  rfl

namespace Python

theorem calleeStep_graft (arguments : Option Node) :
    calleeStep (n.graft above) (arguments.map (Node.graft above)) =
      (calleeStep n arguments).map (Node.graft above) := by
  unfold calleeStep
  simp only [Node.kind_graft, Node.field?_graft]
  split
  · rw [ChainStep.map_ofMethod]
  · rfl
  · rfl

theorem classifyChain_graft :
    classifyChain (n.graft above) = (classifyChain n).map (Node.graft above) := by
  unfold classifyChain
  simp only [Node.kind_graft, Node.field?_graft, Node.firstNamedChild?_graft]
  split
  · cases n.field? "function" with
    | none => rfl
    | some callee => exact calleeStep_graft above callee _
  · rw [ChainStep.map_ofField]
  · rw [ChainStep.map_ofInner]
  · rw [ChainStep.map_ofOperand]
  · rw [ChainStep.map_ofInner]
  · rfl
  · rfl

end Python

namespace TypeScript

theorem calleeStep_graft (arguments : Option Node) :
    calleeStep (n.graft above) (arguments.map (Node.graft above)) =
      (calleeStep n arguments).map (Node.graft above) := by
  unfold calleeStep
  simp only [Node.kind_graft, Node.field?_graft]
  split
  · rw [ChainStep.map_ofMethod]
  iterate 4 rfl

theorem classifyChain_graft :
    classifyChain (n.graft above) = (classifyChain n).map (Node.graft above) := by
  unfold classifyChain
  simp only [Node.kind_graft, Node.field?_graft, Node.firstNamedChild?_graft]
  split
  · cases n.field? "function" with
    | none => rfl
    | some callee => exact calleeStep_graft above callee _
  · rw [ChainStep.map_ofField]
  · rw [ChainStep.map_ofInner]
  · rw [ChainStep.map_ofOperand]
  iterate 4 rw [ChainStep.map_ofInner]
  iterate 4 rfl

end TypeScript

namespace Rust

theorem calleeStep_graft (arguments : Option Node) :
    calleeStep (n.graft above) (arguments.map (Node.graft above)) =
      (calleeStep n arguments).map (Node.graft above) := by
  fun_induction calleeStep n arguments with
  | case1 callee hkind =>
    rw [calleeStep, Node.kind_graft, hkind]
    rfl
  | case2 callee hkind =>
    rw [calleeStep, Node.kind_graft, hkind]
    simp only [Node.field?_graft, ChainStep.map_ofMethod]
  | case3 callee hkind name hname =>
    rw [calleeStep, Node.kind_graft, hkind]
    simp only [Node.field?_graft, hname, Option.map_some]
    rfl
  | case4 callee hkind hname =>
    rw [calleeStep, Node.kind_graft, hkind]
    simp only [Node.field?_graft, hname, Option.map_none]
    rfl
  | case5 callee hkind inner hinner ih =>
    rw [calleeStep, Node.kind_graft, hkind]
    simp only
    split
    case h_1 found hfound =>
      rw [Node.field?_graft, hinner] at hfound
      cases hfound
      exact ih
    case h_2 hfound =>
      rw [Node.field?_graft, hinner] at hfound
      cases hfound
  | case6 callee hkind hinner =>
    rw [calleeStep, Node.kind_graft, hkind]
    simp only
    split
    case h_1 found hfound =>
      rw [Node.field?_graft, hinner] at hfound
      cases hfound
    case h_2 => rfl
  | case7 callee h1 h2 h3 h4 =>
    rw [calleeStep, Node.kind_graft]
    simp only
    rfl

theorem classifyChain_graft :
    classifyChain (n.graft above) = (classifyChain n).map (Node.graft above) := by
  unfold classifyChain
  simp only [Node.kind_graft, Node.field?_graft, Node.firstNamedChild?_graft]
  split
  · cases n.field? "function" with
    | none => rfl
    | some callee => exact calleeStep_graft above callee _
  · rw [ChainStep.map_ofField]
  · cases n.field? "macro" with
    | none => rfl
    | some name =>
      simp only [Option.map_some, Node.kind_graft, Node.field?_graft]
      split
      · cases name.field? "name" with
        | none => rfl
        | some last => rfl
      · rfl
  · rw [ChainStep.map_ofOperand]
  · rw [ChainStep.map_ofOperand]
  iterate 2 rw [ChainStep.map_ofInner]
  iterate 6 rfl

end Rust

theorem Language.classifyChain_graft (language : Language) :
    language.grammar.classifyChain (n.graft above) =
      (language.grammar.classifyChain n).map (Node.graft above) := by
  cases language with
  | rust => exact Rust.classifyChain_graft above n
  | typescript => exact TypeScript.classifyChain_graft above n
  | javascript => exact TypeScript.classifyChain_graft above n
  | python => exact Python.classifyChain_graft above n

end Grammars

/--
The scope with another limit on the depth of the tree.
-/
def Scope.withTreeDepth (scope : Scope) (depth : Nat) : Scope :=
  { scope with limits := { scope.limits with maxTreeDepth := depth } }

namespace Extract

section Graft

variable (language : Language) (scope : Scope) (above : List Frame)

theorem callArguments_graft (list : Option Node) :
    callArguments language.grammar scope (list.map (Node.graft above)) =
      callArguments language.grammar scope list := by
  cases list with
  | none => rfl
  | some list => exact arguments_graft language scope above list

theorem segmentAt_graft (n : Node) :
    segmentAt language.grammar scope (n.graft above) = segmentAt language.grammar scope n := by
  have hstart (list : Option Node) :
      (list.map (Node.graft above)).map Node.start = list.map Node.start := by
    rw [Option.map_map]
    rfl
  unfold segmentAt
  rw [Language.classifyChain_graft]
  cases language.grammar.classifyChain n with
  | methodCall name list receiver =>
    simp only [ChainStep.map, stepSegment, callArguments_graft]
    rfl
  | freeCall name list =>
    simp only [ChainStep.map, stepSegment, callArguments_graft]
    rfl
  | pathCall path name list =>
    simp only [ChainStep.map, stepSegment, callArguments_graft]
    rfl
  | invoke callee list =>
    simp only [ChainStep.map, stepSegment, callArguments_graft, hstart]
    rfl
  | suspend mark operand =>
    simp only [ChainStep.map, stepSegment, Node.childOfKind?_graft, hstart]
    rfl
  | _ => rfl

theorem walkChain_graft (steps : Nat) (n : Node) (segments : List Segment) :
    walkChain language.grammar scope steps (n.graft above) segments =
      walkChain language.grammar scope steps n segments := by
  induction steps generalizing n segments with
  | zero => rfl
  | succ steps ih =>
    rw [walkChain_succ, walkChain_succ, segmentAt_graft, Language.classifyChain_graft,
      ChainStep.next?_map, ChainStep.receiver?_map, Option.map_map]
    congr 1
    funext segment
    cases (language.grammar.classifyChain n).next? with
    | none => rfl
    | some m => exact ih m _

theorem callChain_graft (n : Node) :
    callChain language.grammar scope (n.graft above) = callChain language.grammar scope n := by
  rw [callChain_eq, callChain_eq, walkChain_graft]
  rfl

end Graft

/-! Search from the inside -/

/--
Two nodes that differ in their surroundings at most. The parents are of the same kind.
-/
structure Alike (n m : Node) : Prop where
  source : n.source = m.source
  tree : n.tree = m.tree
  parentKind : n.parentKind? = m.parentKind?

namespace Alike

variable {n m : Node}

theorem kind_eq (h : Alike n m) : n.kind = m.kind := by
  rw [Node.kind, Node.label, h.tree]
  rfl

theorem callChain_eq (h : Alike n m) (language : Language) (scope : Scope) :
    callChain language.grammar scope n = callChain language.grammar scope m := by
  have hn : (Node.root n.source n.tree).graft n.above = n := rfl
  have hm : (Node.root n.source n.tree).graft m.above = m := by
    rw [h.source, h.tree]
    rfl
  rw [← hn, ← hm, callChain_graft, callChain_graft]

theorem isOutermost_eq (h : Alike n m) (g : Grammar) : isOutermost g n = isOutermost g m := by
  rw [isOutermost, isOutermost, h.kind_eq, h.parentKind]

theorem forall₂_place (hsource : n.source = m.source) (hkind : n.kind = m.kind)
    (before before' ts : List Tree) :
    List.Forall₂ Alike (n.place before ts) (m.place before' ts) := by
  induction ts generalizing before before' with
  | nil => exact .nil
  | cons t ts ih => exact .cons ⟨hsource, rfl, congrArg some hkind⟩ (ih _ _)

theorem forall₂_namedChildren (h : Alike n m) :
    List.Forall₂ (fun c d => c ∈ n.namedChildren ∧ Alike c d) n.namedChildren m.namedChildren := by
  rw [List.forall₂_and_left]
  refine ⟨fun c hc => hc, ?_⟩
  unfold Node.namedChildren Node.children
  rw [h.tree]
  apply List.rel_filter
  · intro a b hab
    exact iff_of_eq (congrArg (fun t : Tree => t.label.isNamed = true) hab.tree)
  · apply forall₂_place h.source h.kind_eq

theorem forall₂_cutOff (h : Alike n m) (scope : Scope) (depth : Nat) :
    List.Forall₂ Alike (scope.cutOff n depth) (scope.cutOff m depth) := by
  induction n using namedInduction generalizing m depth with
  | step n ih =>
    rw [Scope.cutOff_eq, Scope.cutOff_eq]
    split
    · exact .cons h .nil
    · apply List.rel_flatMap h.forall₂_namedChildren
      rintro c d ⟨hc, hcd⟩
      exact ih c hc hcd (depth + 1)

section Language

variable (language : Language) (scope : Scope)

theorem chainAt?_eq (h : Alike n m) :
    chainAt? language.grammar scope n = chainAt? language.grammar scope m := by
  rw [chainAt?, chainAt?, h.callChain_eq]

theorem forall₂_attempts (h : Alike n m) (depth : Nat) :
    List.Forall₂ Alike (attempts language.grammar scope n depth)
      (attempts language.grammar scope m depth) := by
  induction n using namedInduction generalizing m depth with
  | step n ih =>
    have hbelow : List.Forall₂ Alike
        (n.namedChildren.flatMap (attempts language.grammar scope · (depth + 1)))
        (m.namedChildren.flatMap (attempts language.grammar scope · (depth + 1))) := by
      apply List.rel_flatMap h.forall₂_namedChildren
      rintro c d ⟨hc, hcd⟩
      exact ih c hc hcd (depth + 1)
    rw [attempts_eq, attempts_eq, h.isOutermost_eq, h.chainAt?_eq]
    split
    · exact .nil
    · split
      · split
        · exact .cons h .nil
        · exact .cons h hbelow
      · exact hbelow

theorem chainsAt_eq {ns ms : List Node} (h : List.Forall₂ Alike ns ms) :
    (chainsAt language.grammar scope ns).map (·.2) =
      (chainsAt language.grammar scope ms).map (·.2) := by
  simp only [chainsAt, List.map_filterMap, Option.map_map, Function.comp_def, Option.map_id']
  induction h with
  | nil => rfl
  | cons hnm _ ih => rw [List.filterMap_cons, List.filterMap_cons, hnm.chainAt?_eq, ih]

theorem costAt_eq {ns ms : List Node} (h : List.Forall₂ Alike ns ms) :
    costAt language.grammar scope ns = costAt language.grammar scope ms := by
  unfold costAt
  induction h with
  | nil => rfl
  | cons hnm _ ih =>
    rw [List.map_cons, List.map_cons, List.sum_cons, List.sum_cons, hnm.callChain_eq, ih]

/--
What is found and counted below a node does not depend on what stands around it.
-/
theorem callChains_eq (h : Alike n m) :
    callChains language.grammar scope n = callChains language.grammar scope m := by
  apply StateT.ext
  intro f
  have hattempts := h.forall₂_attempts language scope 0
  rw [run_callChains_attempts, run_callChains_attempts, chainsAt_eq language scope hattempts,
    costAt_eq language scope hattempts, (h.forall₂_cutOff scope 0).length_eq]

end Language

end Alike

/-! One level down -/

section Level

variable (g : Grammar) (scope : Scope) (limit : Nat)

theorem callChain_withTreeDepth (n : Node) :
    callChain g (scope.withTreeDepth limit) n = callChain g scope n := by
  apply callChain_congr
  case hfile => rfl
  case hchain => rfl
  case harg => rfl

theorem chainAt?_withTreeDepth (n : Node) :
    chainAt? g (scope.withTreeDepth limit) n = chainAt? g scope n := by
  rw [chainAt?, chainAt?, callChain_withTreeDepth]

/--
One level more to go and one level further down come to the same.
-/
theorem attempts_succ (n : Node) (depth : Nat) :
    attempts g (scope.withTreeDepth (limit + 1)) n (depth + 1) =
      attempts g (scope.withTreeDepth limit) n depth := by
  induction n using namedInduction generalizing depth with
  | step n ih =>
    have hbelow := List.flatMap_congr fun c hc => ih c hc (depth + 1)
    have hlimit : (scope.withTreeDepth (limit + 1)).limits.maxTreeDepth < depth + 1 ↔
        (scope.withTreeDepth limit).limits.maxTreeDepth < depth := Nat.succ_lt_succ_iff
    rw [attempts_eq, attempts_eq, hbelow]
    simp only [chainAt?_withTreeDepth, hlimit]

theorem cutOff_succ (n : Node) (depth : Nat) :
    (scope.withTreeDepth (limit + 1)).cutOff n (depth + 1) =
      (scope.withTreeDepth limit).cutOff n depth := by
  induction n using namedInduction generalizing depth with
  | step n ih =>
    have hbelow := List.flatMap_congr fun c hc => ih c hc (depth + 1)
    have hlimit : (scope.withTreeDepth (limit + 1)).limits.maxTreeDepth < depth + 1 ↔
        (scope.withTreeDepth limit).limits.maxTreeDepth < depth := Nat.succ_lt_succ_iff
    rw [Scope.cutOff_eq, Scope.cutOff_eq, hbelow]
    simp only [hlimit]

variable {root : Node}

theorem attempts_of_not_isChainRoot (h : ¬ g.isChainRoot root.kind) :
    attempts g (scope.withTreeDepth (limit + 1)) root 0 =
      root.namedChildren.flatMap (attempts g (scope.withTreeDepth limit) · 0) := by
  have houter : ¬ isOutermost g root := by
    rw [isOutermost, Bool.and_eq_true]
    exact fun h' => h h'.1
  rw [attempts_eq, if_neg (Nat.not_lt_zero _), if_neg houter]
  exact List.flatMap_congr fun c _ => attempts_succ g scope limit c 0

theorem cutOff_zero :
    (scope.withTreeDepth (limit + 1)).cutOff root 0 =
      root.namedChildren.flatMap ((scope.withTreeDepth limit).cutOff · 0) := by
  rw [Scope.cutOff_eq, if_neg (Nat.not_lt_zero _)]
  exact List.flatMap_congr fun c _ => cutOff_succ scope limit c 0

theorem chainsAt_withTreeDepth (ns : List Node) :
    chainsAt g (scope.withTreeDepth limit) ns = chainsAt g scope ns := by
  simp only [chainsAt, chainAt?_withTreeDepth]

theorem costAt_withTreeDepth (ns : List Node) :
    costAt g (scope.withTreeDepth limit) ns = costAt g scope ns := by
  simp only [costAt, callChain_withTreeDepth]

theorem chainsAt_flatMap (cs : List Node) (f : Node → List Node) :
    chainsAt g scope (cs.flatMap f) = cs.flatMap fun c => chainsAt g scope (f c) :=
  List.filterMap_flatMap

/--
What the children count adds up, and so do the subtrees that are cut off below them.
-/
theorem count_flatMap (cs : List Node) (f k : Node → List Node) :
    costAt g scope (cs.flatMap f) + { truncatedSubtrees := (cs.flatMap k).length } =
      (cs.map fun c => costAt g scope (f c) + { truncatedSubtrees := (k c).length }).sum := by
  induction cs with
  | nil => rfl
  | cons c cs ih =>
    rw [List.map_cons, List.sum_cons, ← ih, List.flatMap_cons, List.flatMap_cons,
      List.length_append, add_add_add_comm]
    congr 1
    unfold costAt
    rw [List.map_append, List.sum_append]

end Level

/--
Below a node that begins no chain, the chains are those of its named children, in their order and
with one level less to go, and what is counted is the sum of what they count. What is found and
counted in a child stays the same whatever else stands in the tree, as long as its parent is of the
same kind.
-/
theorem callChains_by_children (g : Grammar) (scope : Scope) (limit : Nat) (root : Node)
    (h : ¬ g.isChainRoot root.kind) (f : Fallbacks) :
    let found (c : Node) := (callChains g (scope.withTreeDepth limit) c).run 0
    (callChains g (scope.withTreeDepth (limit + 1)) root).run f =
      (root.namedChildren.flatMap fun c => (found c).1,
        f + (root.namedChildren.map fun c => (found c).2).sum) ∧
    ∀ language : Language, g = language.grammar → ∀ c d : Node, c.source = d.source →
      c.tree = d.tree → c.parentKind? = d.parentKind? → found c = found d := by
  intro found
  constructor
  · simp only [found, run_callChains_attempts, zero_add, chainsAt_withTreeDepth,
      costAt_withTreeDepth, attempts_of_not_isChainRoot g scope limit h, cutOff_zero,
      chainsAt_flatMap, List.map_flatMap, count_flatMap]
  · rintro language rfl c d hsource htree hparent
    have halike : Alike c d := ⟨hsource, htree, hparent⟩
    simp only [found, halike.callChains_eq]

/--
The chains of two statements, found with a limit that only just reaches them.
-/
theorem twoCalls_by_children :
    let scope : Scope := ⟨"a.py", {}⟩
    let root := Node.root (.ofString "a()\nb()") twoCalls
    let found (c : Node) := (callChains Python.grammar (scope.withTreeDepth 0) c).run 0
    ¬ Python.grammar.isChainRoot root.kind ∧
      ((callChains Python.grammar (scope.withTreeDepth 1) root).run { opaqueReceivers := 1 }) =
        (root.namedChildren.flatMap fun c => (found c).1,
          { opaqueReceivers := 1 } + (root.namedChildren.map fun c => (found c).2).sum) ∧
      (root.namedChildren.flatMap fun c => (found c).1).map (·.raw) = ["a()", "b()"] ∧
      (root.namedChildren.map fun c => (found c).2).sum = { truncatedSubtrees := 4 } := by
  intro scope root found
  have hroot : ¬ Python.grammar.isChainRoot root.kind := by decide +kernel
  obtain ⟨hrun, -⟩ :=
    callChains_by_children Python.grammar scope 0 root hroot { opaqueReceivers := 1 }
  refine ⟨hroot, hrun, ?_⟩
  simp only [found, run_callChains_attempts]
  decide +kernel

end Extract

end Polyglot
