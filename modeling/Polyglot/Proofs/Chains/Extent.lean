import Polyglot.Proofs.Chains.Discovery
import Polyglot.Proofs.Objects
import Polyglot.Proofs.Positions
import Polyglot.Proofs.Reads

/-!
This module contains the extent of a chain. A grammar reads everything that becomes part of a chain
off nodes inside the chain's outermost node, so that all positions in a chain lie between its start
and its stop, and the arguments of a call stand in source order.
-/

namespace Polyglot

namespace Node

/--
The spans of a tree as a parser gives them: each lies in the source and contains the spans of the
children, and the children begin one after the other.
-/
def NestedSpans (n : Node) : Prop :=
  ∀ m ∈ n.preorder, m.label.start ≤ m.label.stop ∧ m.label.stop ≤ m.source.text.utf8ByteSize ∧
    (∀ c ∈ m.children, m.label.start ≤ c.label.start ∧ c.label.stop ≤ m.label.stop) ∧
    m.children.Pairwise fun c d => c.label.start ≤ d.label.start

instance (n : Node) : Decidable n.NestedSpans := by
  unfold NestedSpans
  infer_instance

theorem source_of_mem_children {n c : Node} (h : c ∈ n.children) : c.source = n.source := by
  obtain ⟨before, t, after, -, rfl⟩ := mem_children_iff.1 h
  rfl

theorem source_of_mem_preorder {n m : Node} (h : m ∈ n.preorder) : m.source = n.source := by
  induction n using sizeInduction with
  | step n ih =>
    rw [preorder_eq, List.mem_cons, List.mem_flatMap] at h
    rcases h with rfl | ⟨c, hc, hm⟩
    · rfl
    · rw [ih c (size_lt_of_mem_children hc) hm, source_of_mem_children hc]

namespace NestedSpans

variable {n m : Node}

theorem of_mem (h : n.NestedSpans) (hm : m ∈ n.preorder) : m.NestedSpans := by
  intro k hk
  exact h k (mem_preorder_trans hk hm)

theorem contains (h : n.NestedSpans) (hm : m ∈ n.preorder) :
    n.label.start ≤ m.label.start ∧ m.label.stop ≤ n.label.stop := by
  induction n using sizeInduction with
  | step n ih =>
    have hn := (h n (mem_preorder_self n)).2.2.1
    rw [preorder_eq, List.mem_cons, List.mem_flatMap] at hm
    rcases hm with rfl | ⟨c, hc, hm⟩
    · exact ⟨Nat.le_refl _, Nat.le_refl _⟩
    · have hin := hn c hc
      have hbelow := ih c (size_lt_of_mem_children hc) (h.of_mem (mem_preorder_of_child hc)) hm
      omega

end NestedSpans

end Node

/--
Whether a position lies between two others.
-/
def Position.between (start stop p : Position) : Prop := start.before p ∧ p.before stop

namespace ArgumentKind

/--
`kind.Holds a` holds if `a` stands in an argument of this kind, at any depth.
-/
inductive Holds : ArgumentKind → Argument → Prop where
  | part {kind : ArgumentKind} {a : Argument} (h : a ∈ kind.parts) : Holds kind a
  | inside {kind : ArgumentKind} {a b : Argument} (h : a ∈ kind.parts) (hb : Holds a.kind b) :
      Holds kind b

theorem not_holds {kind : ArgumentKind} (h : kind.parts = []) (b : Argument) :
    ¬ kind.Holds b := by
  intro hb
  cases hb with
  | part ha => exact List.not_mem_nil (h ▸ ha)
  | inside ha => exact List.not_mem_nil (h ▸ ha)

end ArgumentKind

/--
What holds of a segment of a chain with the given start and stop.
-/
structure Segment.Within (start stop : Position) (s : Segment) : Prop where
  position : start.between stop s.position
  arguments : ∀ a ∈ s.arguments, start.between stop a.position ∧
    ∀ b, a.kind.Holds b → start.between stop b.position
  ordered : s.arguments.Pairwise fun a b => a.position.before b.position
  access : s.isCall = false → s.arguments = []

theorem Segment.within_access {start stop position : Position} (h : start.between stop position)
    (name : String) : (Segment.access name position).Within start stop where
  position := h
  arguments := by
    intro a ha
    cases ha
  ordered := List.Pairwise.nil
  access _ := rfl

/--
A chain that contains all of its segments.
-/
structure CallChain.Contained (chain : CallChain) : Prop where
  start_before_stop : chain.start.before chain.stop
  segments : ∀ s ∈ chain.segments, s.Within chain.start chain.stop

namespace Extract

open CountM Node

section Arguments

variable {g : Grammar} {inner : Node → CountM Argument}

theorem value_argumentAt_succ (levels : Nat) (n : Node) :
    (argumentAt g (levels + 1) n).value =
      n.toArgument (kindOfShape (argumentAt g levels) (g.classifyArg n)).value := by
  rw [argumentAt_succ]
  exact value_bind_pure (additive_kindOfShape (additive_argumentAt g levels) _) _

theorem position_argumentAt (levels : Nat) (n : Node) :
    (argumentAt g levels n).value.position = n.start := by
  cases levels with
  | zero => rfl
  | succ levels =>
    rw [value_argumentAt_succ]
    rfl

section Inner

variable (hadd : ∀ n, (inner n).Additive) (hposition : ∀ n, (inner n).value.position = n.start)

include hadd hposition

theorem position_property (entry : ObjectEntry) :
    (property inner entry).value.2.position = entry.node.start := by
  cases entry with
  | pair key value =>
    rw [property, value_bind_pure (hadd value)]
    exact hposition value
  | shorthand name node => rfl
  | unclassified node => rfl

omit hposition in
theorem holds_property {entry : ObjectEntry} {b : Argument}
    (h : (property inner entry).value.2.kind.Holds b) :
    (inner entry.node).value.kind.Holds b := by
  cases entry with
  | pair key value =>
    rw [property, value_bind_pure (hadd value)] at h
    exact h
  | shorthand name node => exact absurd h (ArgumentKind.not_holds rfl b)
  | unclassified node => exact absurd h (ArgumentKind.not_holds rfl b)

/--
A part of an argument is read off a node of its shape. If that is a wrapper, the part is one of the
argument inside.
-/
theorem mem_parts_kindOfShape {shape : ArgShape} {a : Argument}
    (h : a ∈ (kindOfShape inner shape).value.parts) :
    ∃ m ∈ shape.nodes,
      (a.position = m.start ∧ ∀ b, a.kind.Holds b → (inner m).value.kind.Holds b) ∨
      a ∈ (inner m).value.kind.parts := by
  cases shape with
  | object entries =>
    rw [value_kindOfShape_object hadd] at h
    obtain ⟨p, hp, rfl⟩ := List.mem_map.1 h
    have hp := (mem_addEntries hp).resolve_left List.not_mem_nil
    obtain ⟨entry, hentry, rfl⟩ := List.mem_map.1 hp
    refine ⟨entry.node, List.mem_map_of_mem hentry, .inl ⟨?_, ?_⟩⟩
    · exact position_property hadd hposition entry
    · intro b
      exact holds_property hadd
  | array items =>
    rw [kindOfShape, value_bind_pure (additive_mapM hadd items), value_mapM hadd] at h
    obtain ⟨m, hm, rfl⟩ := List.mem_map.1 h
    exact ⟨m, hm, .inl ⟨hposition m, fun b hb => hb⟩⟩
  | keyword name value =>
    rw [kindOfShape, value_bind_pure (hadd value)] at h
    obtain rfl := List.mem_singleton.1 h
    exact ⟨value, List.mem_singleton_self value, .inl ⟨hposition value, fun b hb => hb⟩⟩
  | wrapped node =>
    rw [kindOfShape, value_bind_pure (hadd node)] at h
    exact ⟨node, List.mem_singleton_self node, .inr h⟩
  | number literal =>
    rw [kindOfShape] at h
    split at h
    · cases h
    · cases h
  | _ => cases h

theorem holds_kindOfShape {shape : ArgShape} {b : Argument}
    (h : (kindOfShape inner shape).value.Holds b) :
    ∃ m ∈ shape.nodes, b.position = m.start ∨ (inner m).value.kind.Holds b := by
  cases h with
  | part ha =>
    obtain ⟨m, hm, ⟨hstart, -⟩ | hpart⟩ := mem_parts_kindOfShape hadd hposition ha
    · exact ⟨m, hm, .inl hstart⟩
    · exact ⟨m, hm, .inr (.part hpart)⟩
  | inside ha hb =>
    obtain ⟨m, hm, ⟨-, hinner⟩ | hpart⟩ := mem_parts_kindOfShape hadd hposition ha
    · exact ⟨m, hm, .inr (hinner b hb)⟩
    · exact ⟨m, hm, .inr (.inside hpart hb)⟩

end Inner

theorem holds_argumentAt (hg : g.ReadsInside) {levels : Nat} {n : Node} {b : Argument}
    (h : (argumentAt g levels n).value.kind.Holds b) : ∃ m ∈ n.preorder, b.position = m.start := by
  induction levels generalizing n with
  | zero => exact absurd h (ArgumentKind.not_holds rfl b)
  | succ levels ih =>
    rw [value_argumentAt_succ] at h
    obtain ⟨m, hm, hstart | hinner⟩ :=
      holds_kindOfShape (additive_argumentAt g levels) (position_argumentAt levels) h
    · exact ⟨m, hg.argument n m hm, hstart⟩
    · obtain ⟨k, hk, hstart⟩ := ih hinner
      exact ⟨k, mem_preorder_trans hk (hg.argument n m hm), hstart⟩

end Arguments

end Extract

namespace Node.NestedSpans

variable {n m k : Node} (hsize : n.source.text.utf8ByteSize + 1 < UInt32.size) (h : n.NestedSpans)
  (hm : m ∈ n.preorder)

include hsize h hm

theorem position_between {offset : Nat} (hstart : m.label.start ≤ offset)
    (hstop : offset ≤ m.label.stop) : n.start.between n.stop (m.source.position offset) := by
  have hin := h.contains hm
  have hn := (h n (mem_preorder_self n)).2.1
  rw [source_of_mem_preorder hm]
  constructor
  · apply Source.position_before <;> omega
  · apply Source.position_before <;> omega

theorem start_between : n.start.between n.stop m.start :=
  h.position_between hsize hm (Nat.le_refl _) (h m hm).1

theorem stop_between : n.start.between n.stop m.stop :=
  h.position_between hsize hm (h m hm).1 (Nat.le_refl _)

theorem start_before (hk : k ∈ n.preorder) (hle : m.label.start ≤ k.label.start) :
    m.start.before k.start := by
  have hspan := h k hk
  rw [source_of_mem_preorder hk] at hspan
  rw [Node.start, Node.start, source_of_mem_preorder hm, source_of_mem_preorder hk]
  exact Source.position_before _ hle (by omega)

end Node.NestedSpans

theorem ChainStep.mem_nodes_of_next? {step : ChainStep} {m : Node} (h : step.next? = some m) :
    m ∈ step.nodes := by
  cases step with
  | methodCall name list receiver =>
    cases h
    exact List.mem_cons_of_mem _ List.mem_cons_self
  | field name base =>
    cases h
    exact List.mem_cons_of_mem _ List.mem_cons_self
  | invoke callee list =>
    cases h
    exact List.mem_cons_self
  | suspend mark operand =>
    cases h
    exact List.mem_cons_self
  | transparent inner =>
    cases h
    exact List.mem_cons_self
  | _ => cases h

namespace Extract

open CountM Node

section Inside

variable {g : Grammar} (hg : g.ReadsInside) (scope : Scope) {n : Node}
  (hsize : n.source.text.utf8ByteSize + 1 < UInt32.size) (hspan : n.NestedSpans)

include hg

theorem mem_preorder_of_mem_argumentNodes {list m : Node} (h : m ∈ g.argumentNodes list) :
    m ∈ list.preorder := by
  rcases hg.arguments list with hself | hsub
  · rw [hself, List.mem_singleton] at h
    rw [h]
    exact mem_preorder_self list
  · exact mem_preorder_of_child (hsub.subset h)

theorem mem_preorder_of_mem_cursors {steps : Nat} {n m : Node} {cs : List Node}
    (hcs : cursors g steps n = some cs) (hm : m ∈ cs) : m ∈ n.preorder := by
  induction steps generalizing n cs with
  | zero => cases hcs
  | succ steps ih =>
    rw [cursors] at hcs
    cases hnext : (g.classifyChain n).next? with
    | none =>
      simp only [hnext, Option.some.injEq] at hcs
      rw [← hcs, List.mem_singleton] at hm
      rw [hm]
      exact mem_preorder_self n
    | some next =>
      simp only [hnext, Option.map_eq_some_iff] at hcs
      obtain ⟨rest, hrest, rfl⟩ := hcs
      rcases List.mem_cons.1 hm with rfl | hm
      · exact mem_preorder_self m
      · have hinside := hg.chain n next (ChainStep.mem_nodes_of_next? hnext)
        exact mem_preorder_trans (ih hrest hm) hinside

include hsize hspan

theorem argument_between {m : Node} (hm : m ∈ n.preorder) :
    n.start.between n.stop (argument g scope m).value.position ∧
      ∀ b, (argument g scope m).value.kind.Holds b → n.start.between n.stop b.position := by
  constructor
  · rw [argument, position_argumentAt]
    exact hspan.start_between hsize hm
  · intro b hb
    obtain ⟨k, hk, hstart⟩ := holds_argumentAt hg hb
    rw [hstart]
    exact hspan.start_between hsize (mem_preorder_trans hk hm)

theorem argumentNodes_ordered {list : Node} (hlist : list ∈ n.preorder) :
    (g.argumentNodes list).Pairwise fun a b => a.start.before b.start := by
  rcases hg.arguments list with hself | hsub
  · rw [hself]
    exact List.pairwise_singleton _ _
  · apply (((hspan list hlist).2.2.2).sublist hsub).imp_of_mem
    intro a b ha hb hle
    have hinside : ∀ m ∈ g.argumentNodes list, m ∈ n.preorder := by
      intro m hm
      exact mem_preorder_trans (mem_preorder_of_mem_argumentNodes hg hm) hlist
    exact hspan.start_before hsize (hinside a ha) (hinside b hb) hle

theorem within_call (list : Option Node) (hlist : ∀ l ∈ list, l ∈ n.preorder)
    {position : Position} (hposition : n.start.between n.stop position) (name : String) :
    (Segment.call name (callArguments g scope list).value position).Within n.start n.stop := by
  refine ⟨hposition, ?_, ?_, fun h => by cases h⟩
  · intro a ha
    cases list with
    | none => cases ha
    | some list =>
      have ha : a ∈ (callArguments g scope (some list)).value := ha
      rw [callArguments, arguments, value_mapM (additive_argument g scope)] at ha
      obtain ⟨m, hm, rfl⟩ := List.mem_map.1 ha
      have hm := mem_preorder_of_mem_argumentNodes hg hm
      exact argument_between hg scope hsize hspan (mem_preorder_trans hm (hlist list rfl))
  · cases list with
    | none => exact List.Pairwise.nil
    | some list =>
      change (callArguments g scope (some list)).value.Pairwise _
      rw [callArguments, arguments, value_mapM (additive_argument g scope), List.pairwise_map]
      apply (argumentNodes_ordered hg hsize hspan (hlist list rfl)).imp
      intro a b hab
      rw [argument, argument, position_argumentAt, position_argumentAt]
      exact hab

/--
The segment of a step is inside `n`, if the step is.
-/
theorem within_stepSegment {m : Node} {step : ChainStep} {s : Segment} (hm : m ∈ n.preorder)
    (hstep : ∀ k ∈ step.nodes, k ∈ n.preorder) (h : (stepSegment g scope m step).value = some s) :
    s.Within n.start n.stop := by
  have hargs := additive_callArguments g scope
  have hname : ∀ k ∈ step.nodes, n.start.between n.stop k.start := by
    intro k hk
    exact hspan.start_between hsize (hstep k hk)
  have hcall : ∀ list : Option Node, (∀ l ∈ list, l ∈ step.nodes) → ∀ {position : Position},
      n.start.between n.stop position → ∀ name : String,
      (Segment.call name (callArguments g scope list).value position).Within n.start n.stop := by
    intro list hlist position hposition name
    apply within_call hg scope hsize hspan list ?_ hposition
    intro l hl
    exact hstep l (hlist l hl)
  cases step with
  | methodCall name list receiver =>
    rw [stepSegment, value_bind_pure (hargs list)] at h
    cases h
    apply hcall list _ (hname name List.mem_cons_self)
    intro l hl
    simp [ChainStep.nodes, Option.mem_def.1 hl]
  | freeCall name list =>
    rw [stepSegment, value_bind_pure (hargs list)] at h
    cases h
    apply hcall list _ (hname name List.mem_cons_self)
    intro l hl
    simp [ChainStep.nodes, Option.mem_def.1 hl]
  | pathCall path name list =>
    rw [stepSegment, value_bind_pure (hargs list)] at h
    cases h
    apply hcall list _ (hname name List.mem_cons_self)
    intro l hl
    simp [ChainStep.nodes, Option.mem_def.1 hl]
  | macroCall path name =>
    cases h
    apply hcall none _ (hname name List.mem_cons_self)
    intro l hl
    cases hl
  | invoke callee list =>
    rw [stepSegment, value_bind_pure (hargs list)] at h
    cases h
    have hlist : ∀ l ∈ list, l ∈ (ChainStep.invoke callee list).nodes := by
      intro l hl
      simp [ChainStep.nodes, Option.mem_def.1 hl]
    apply hcall list hlist
    -- A call of a computed callee is placed at its arguments, or behind the callee without any.
    cases list with
    | none => exact hspan.stop_between hsize hm
    | some list => exact hname list (hlist list rfl)
  | field name base =>
    cases h
    exact Segment.within_access (hname name List.mem_cons_self) _
  | suspend mark operand =>
    cases h
    apply Segment.within_access
    cases htoken : m.childOfKind? [mark] with
    | none => exact hspan.start_between hsize hm
    | some token =>
      have htoken := mem_preorder_of_child (List.mem_of_find?_eq_some htoken)
      exact hspan.start_between hsize (mem_preorder_trans htoken hm)
  | _ => cases h

theorem contained_of_callChain {chain : CallChain} (h : (callChain g scope n).value = some chain) :
    chain.Contained := by
  rw [value_callChain, Option.bind_eq_some_iff] at h
  obtain ⟨cs, hcs, hchain⟩ := h
  have hself := hspan.start_between hsize (mem_preorder_self n)
  have hsegments : ∀ s ∈ segmentsOf g scope cs, s.Within n.start n.stop := by
    intro s hs
    obtain ⟨m, hm, hsegment⟩ := List.mem_filterMap.1 hs
    have hm := mem_preorder_of_mem_cursors hg hcs (List.mem_reverse.1 hm)
    apply within_stepSegment hg scope hsize hspan hm ?_ hsegment
    intro k hk
    exact mem_preorder_trans (hg.chain m k hk) hm
  unfold chainOf? at hchain
  split at hchain
  · cases hchain
  · cases hchain
    exact ⟨hself.2, hsegments⟩

end Inside

theorem mem_preorder_of_mem_namedSubtree {n m : Node} (h : m ∈ namedSubtree n) :
    m ∈ n.preorder := by
  induction n using namedInduction with
  | step n ih =>
    rw [namedSubtree_eq, List.mem_cons, List.mem_flatMap] at h
    rcases h with rfl | ⟨c, hc, hm⟩
    · exact mem_preorder_self m
    · exact mem_preorder_of_mem_children (mem_children_of_mem_namedChildren hc) (ih c hc hm)

/--
All positions in a chain are between its start and its stop, and the arguments of a call stand in
source order, for the chain at a node as well as for all chains below it.
-/
theorem chains_contain_segments (language : Language) (scope : Scope) (n : Node) (f : Fallbacks)
    (hsize : n.source.text.utf8ByteSize < UInt32.size - 1) (hspan : n.NestedSpans) :
    (∀ chain, ((callChain language.grammar scope n).run f).1 = some chain → chain.Contained) ∧
    ∀ chain ∈ ((callChains language.grammar scope n).run f).1, chain.Contained := by
  have hg := language.readsInside
  have hsize : n.source.text.utf8ByteSize + 1 < UInt32.size := by omega
  constructor
  · intro chain hchain
    rw [additive_callChain language.grammar scope n f] at hchain
    exact contained_of_callChain hg scope hsize hspan hchain
  · intro chain hchain
    have hrun : ((callChains language.grammar scope n).run f).1 =
        ((locatedCallChains language.grammar scope n).run f).1.map (·.2) := rfl
    rw [hrun, run_locatedCallChains] at hchain
    obtain ⟨e, he, rfl⟩ := List.mem_map.1 hchain
    have hnode := (sublist_found language.grammar scope n).subset (List.mem_map_of_mem he)
    have hnode := mem_preorder_of_mem_namedSubtree hnode
    apply contained_of_callChain hg scope ?_ (hspan.of_mem hnode)
    · exact (invariant_explore language.grammar scope _).chain e he
    · rw [source_of_mem_preorder hnode]
      exact hsize

/--
The tree of a call with a list and a keyword argument, which stands on the second line.
-/
def twoLineCall : Node :=
  .root (.ofString "o.f([x],\n k=1)") <|
    .node ⟨"call", true, false, none, 0, 14⟩ [
      .node ⟨"attribute", true, false, some "function", 0, 3⟩ [
        .node ⟨"identifier", true, false, some "object", 0, 1⟩ [],
        .node ⟨"identifier", true, false, some "attribute", 2, 3⟩ []],
      .node ⟨"argument_list", true, false, some "arguments", 3, 14⟩ [
        .node ⟨"list", true, false, none, 4, 7⟩ [
          .node ⟨"identifier", true, false, none, 5, 6⟩ []],
        .node ⟨"keyword_argument", true, false, none, 10, 13⟩ [
          .node ⟨"identifier", true, false, some "name", 10, 11⟩ [],
          .node ⟨"integer", true, false, some "value", 12, 13⟩ []]]]

theorem twoLineCall_contains_segments :
    let scope : Scope := ⟨"a.py", {}⟩
    twoLineCall.source.text.utf8ByteSize < UInt32.size - 1 ∧ twoLineCall.NestedSpans ∧
    ∃ chain, ((callChain Python.grammar scope twoLineCall).run 0).1 = some chain ∧
      chain.segments.map (·.arguments.length) = [2] ∧ chain.Contained := by
  intro scope
  have hsize : twoLineCall.source.text.utf8ByteSize < UInt32.size - 1 := by decide +kernel
  have hspan : twoLineCall.NestedSpans := by decide +kernel
  have hchain : ((callChain Python.grammar scope twoLineCall).run 0).1.map
      (·.segments.map (·.arguments.length)) = some [2] := by
    decide +kernel
  obtain ⟨chain, hchain, hlength⟩ := Option.map_eq_some_iff.1 hchain
  have hcontained := (chains_contain_segments .python scope twoLineCall 0 hsize hspan).1
  exact ⟨hsize, hspan, chain, hchain, hlength, hcontained chain hchain⟩

end Extract

end Polyglot
