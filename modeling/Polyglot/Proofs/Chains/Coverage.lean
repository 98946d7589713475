import Polyglot.Extract.Facts
import Polyglot.Proofs.Chains.Discovery

/-!
This module contains the argument that the chains of a tree cover its calls. A call is met by the
walk from the outermost link around it, the search looks at this link unless it already belongs to a
chain, and chains do not overlap.
-/

namespace Polyglot

namespace ChainStep

@[simp]
theorem isCall_terminal : terminal.isCall = false := rfl

@[simp]
theorem isCall_unclassified : unclassified.isCall = false := rfl

@[simp]
theorem isCall_ofInner (inner : Option Node) : (ofInner inner).isCall = false := by
  cases inner with
  | none => rfl
  | some inner => rfl

@[simp]
theorem isCall_ofOperand (mark : String) (operand : Option Node) :
    (ofOperand mark operand).isCall = false := by
  cases operand with
  | none => rfl
  | some operand => rfl

@[simp]
theorem isCall_ofField (name base : Option Node) : (ofField name base).isCall = false := by
  cases name with
  | none => rfl
  | some name =>
    cases base with
    | none => rfl
    | some base => rfl

/--
The field access that a method call passes over on the way to its receiver.
-/
def absorbed? : ChainStep → Option Node
  | methodCall _ _ receiver => receiver.parent?
  | _ => none

theorem isCall_of_absorbed {step : ChainStep} {n : Node} (h : step.absorbed? = some n) :
    step.isCall := by
  cases step with
  | methodCall name list receiver => rfl
  | _ => cases h

end ChainStep

theorem Python.isLink_of_isCall {n : Node} (h : (Python.classifyChain n).isCall) :
    Python.grammar.isLink n.kind := by
  unfold Python.classifyChain at h
  split at h
  · next hkind => simp [Grammar.isLink, Python.grammar, hkind]
  all_goals simp at h

theorem TypeScript.isLink_of_isCall {n : Node} (h : (TypeScript.classifyChain n).isCall) :
    TypeScript.grammar.isLink n.kind := by
  unfold TypeScript.classifyChain at h
  split at h
  · next hkind => simp [Grammar.isLink, TypeScript.grammar, hkind]
  all_goals simp at h

theorem Rust.isLink_of_isCall {n : Node} (h : (Rust.classifyChain n).isCall) :
    Rust.grammar.isLink n.kind := by
  unfold Rust.classifyChain at h
  split at h
  · next hkind => simp [Grammar.isLink, Rust.grammar, hkind]
  · simp at h
  · next hkind => simp [Grammar.isLink, Rust.grammar, hkind]
  all_goals simp at h

theorem Language.isLink_of_isCall (language : Language) {n : Node}
    (h : (language.grammar.classifyChain n).isCall) : language.grammar.isLink n.kind := by
  cases language with
  | rust => exact Rust.isLink_of_isCall h
  | typescript => exact TypeScript.isLink_of_isCall h
  | javascript => exact TypeScript.isLink_of_isCall h
  | python => exact Python.isLink_of_isCall h

namespace Extract

open CountM

variable {g : Grammar} {scope : Scope}

/--
`OnWalk g n m` holds if the walk from `n` comes by `m` or passes over it as the callee of a method
call.
-/
def OnWalk (g : Grammar) (n m : Node) : Prop :=
  Cursor g n m ∨ ∃ k, Cursor g n k ∧ (g.classifyChain k).absorbed? = some m

/--
Below `n`, a link holds other links and suspension marks on its own walk only.
-/
def LinksOnWalk (g : Grammar) (n : Node) : Prop :=
  ∀ p ∈ namedSubtree n, g.isLink p.kind →
    ∀ q ∈ p.namedChildren, g.isChainRoot q.kind → OnWalk g p q

def FindsCall (g : Grammar) (n : Node) : Prop :=
  ∃ m, Cursor g n m ∧ (g.classifyChain m).isCall

theorem findsCall_of_isCall {n : Node} (h : (g.classifyChain n).isCall) : FindsCall g n :=
  ⟨n, .refl, h⟩

theorem findsCall_of_onWalk {p q : Node} (hwalk : OnWalk g p q) (h : FindsCall g q) :
    FindsCall g p := by
  rcases hwalk with hcursor | ⟨k, hcursor, habsorbed⟩
  · obtain ⟨m, hm, hcall⟩ := h
    exact ⟨m, hcursor.trans hm, hcall⟩
  · exact ⟨k, hcursor, ChainStep.isCall_of_absorbed habsorbed⟩

theorem isChainRoot_of_isLink {kind : String} (h : g.isLink kind) : g.isChainRoot kind := by
  rw [Grammar.isChainRoot, h, Bool.true_or]

theorem exists_outermost {root c : Node} {depth : Nat} (hroot : root.parentKind? = none)
    (hlinks : LinksOnWalk g root) (hc : root.Reaches depth c) (hlink : g.isLink c.kind)
    (hcall : FindsCall g c) :
    ∃ d r, d ≤ depth ∧ root.Reaches d r ∧ g.isChainRoot r.kind ∧ FindsCall g r ∧
      r.parentKind?.any g.isLink = false ∧ c ∈ namedSubtree r := by
  -- Upwards along the parents: a parent that is a link comes by `c` on its walk and finds the call.
  induction hc with
  | refl =>
    refine ⟨0, root, Nat.le_refl 0, .refl, isChainRoot_of_isLink hlink, hcall, ?_,
      mem_namedSubtree_self root⟩
    rw [hroot, Option.any_none]
  | @child depth m c hm hc ih =>
    by_cases hmlink : g.isLink m.kind
    · have hwalk := hlinks m (mem_namedSubtree_iff.2 ⟨depth, hm⟩) hmlink c hc
        (isChainRoot_of_isLink hlink)
      obtain ⟨d, r, hd, hr, hkind, hfinds, houter, hmem⟩ :=
        ih hmlink (findsCall_of_onWalk hwalk hcall)
      exact ⟨d, r, Nat.le_succ_of_le hd, hr, hkind, hfinds, houter,
        mem_namedSubtree_of_mem_namedChildren hmem hc⟩
    · refine ⟨depth + 1, c, Nat.le_refl _, .child hm hc, isChainRoot_of_isLink hlink, hcall, ?_,
        mem_namedSubtree_self c⟩
      rw [Node.parentKind?_of_mem_children (Node.mem_children_of_mem_namedChildren hc),
        Option.any_some]
      exact Bool.eq_false_iff.2 hmlink

theorem value_segmentAt_of_isCall (scope : Scope) {n : Node} (h : (g.classifyChain n).isCall) :
    ∃ segment, (segmentAt g scope n).value = some segment ∧ segment.isCall := by
  have hadd := additive_callArguments g scope
  unfold segmentAt
  cases hstep : g.classifyChain n with
  | methodCall name list receiver => exact ⟨_, value_bind_pure (hadd list) _, rfl⟩
  | freeCall name list => exact ⟨_, value_bind_pure (hadd list) _, rfl⟩
  | pathCall path name list => exact ⟨_, value_bind_pure (hadd list) _, rfl⟩
  | macroCall path name => exact ⟨_, rfl, rfl⟩
  | invoke callee list => exact ⟨_, value_bind_pure (hadd list) _, rfl⟩
  | _ =>
    rw [hstep] at h
    cases h

theorem exists_callChain {n : Node} {cs : List Node}
    (hcs : cursors g scope.limits.maxChainDepth n = some cs) (h : FindsCall g n) :
    ∃ chain, (callChain g scope n).value = some chain ∧ chain.hasCall := by
  obtain ⟨m, hcursor, hcall⟩ := h
  obtain ⟨segment, hsegment, hisCall⟩ := value_segmentAt_of_isCall scope hcall
  have hmem : segment ∈ segmentsOf g scope cs := by
    rw [segmentsOf, List.mem_filterMap]
    exact ⟨m, List.mem_reverse.2 (mem_cursors_of_cursor hcs hcursor), hsegment⟩
  rw [value_callChain, hcs, Option.bind_some]
  cases hsegments : segmentsOf g scope cs with
  | nil =>
    rw [hsegments] at hmem
    cases hmem
  | cons s rest =>
    refine ⟨_, rfl, ?_⟩
    rw [hsegments] at hmem
    exact List.any_eq_true.2 ⟨segment, hmem, hisCall⟩

theorem Discovery.mem_found_step {d : Discovery} {e : Node × CallChain} (n : Node)
    (h : e ∈ d.found.toList) : e ∈ (d.step g scope n).found.toList := by
  unfold Discovery.step
  split
  · rw [found_record]
    exact List.mem_append_left _ h
  · exact h

theorem mem_found_append {ns : List Node} {e : Node × CallChain} (ms : List Node)
    (h : e ∈ (explore g scope ns).found.toList) :
    e ∈ (explore g scope (ns ++ ms)).found.toList := by
  induction ms using List.reverseRecOn with
  | nil => rwa [List.append_nil]
  | append_singleton ms m ih =>
    rw [← List.append_assoc, explore, List.foldl_append]
    exact Discovery.mem_found_step m ih

theorem exists_cursors_of_tally {ns ms : List Node} {n : Node}
    (htally : (Scope.tally (discover g scope) {} (ns ++ n :: ms)).depthLimitedChains = 0)
    (hstart : (explore g scope ns).startsAt g n) :
    ∃ cs, cursors g scope.limits.maxChainDepth n = some cs := by
  rw [Scope.tally_append, Scope.tally, advance_discover, Fallbacks.depthLimitedChains_add,
    Fallbacks.depthLimitedChains_add] at htally
  change _ + (((discover g scope n).run (explore g scope ns)).cost.depthLimitedChains + _) = 0
    at htally
  rw [cost_of_run (run_discover g scope n (explore g scope ns)), if_pos hstart] at htally
  cases hcs : cursors g scope.limits.maxChainDepth n with
  | none =>
    -- A walk that is cut short is counted.
    rw [depthLimitedChains_callChain, hcs, Option.isSome_none, if_neg Bool.false_ne_true] at htally
    omega
  | some cs => exact ⟨cs, rfl⟩

/--
The search finds a chain around every outermost link that it looks at.
-/
theorem exists_found_of_mem {root r : Node} {ns : List Node} (hr : r ∈ ns)
    (hns : ∀ n ∈ ns, n ∈ namedSubtree root)
    (htally : (Scope.tally (discover g scope) {} ns).depthLimitedChains = 0)
    (hkind : g.isChainRoot r.kind) (houter : r.parentKind?.any g.isLink = false)
    (hfinds : FindsCall g r) :
    ∃ e ∈ (explore g scope ns).found.toList, r ∈ namedSubtree e.1 := by
  obtain ⟨before, after, rfl⟩ := List.append_of_mem hr
  have hinv := invariant_explore g scope before
  by_cases hclaimed : r.path ∈ (explore g scope before).claimed
  -- What is claimed lies below a chain that was found before.
  · obtain ⟨e, he, m, hm, -, hpath⟩ := (hinv.claimed r.path).1 hclaimed
    have heroot : e.1 ∈ namedSubtree root := by
      apply hns
      exact List.mem_append_left _ (hinv.order.subset (List.mem_map_of_mem he))
    obtain ⟨_, hmroot⟩ := mem_namedSubtree_iff.1 (mem_namedSubtree_trans hm heroot)
    obtain ⟨_, hrroot⟩ := mem_namedSubtree_iff.1 (hns r hr)
    obtain rfl := hmroot.eq_of_path hrroot hpath
    exact ⟨e, mem_found_append _ he, hm⟩
  -- Otherwise the search starts here, and the walk ends within the limit.
  · have hstart := Discovery.startsAt_iff.2 ⟨hkind, hclaimed, houter⟩
    obtain ⟨cs, hcs⟩ := exists_cursors_of_tally htally hstart
    obtain ⟨chain, hchain, hcall⟩ := exists_callChain hcs hfinds
    have hnew := Discovery.newChain?_eq_some_iff.2 ⟨hstart, hchain, hcall⟩
    refine ⟨(r, chain), ?_, mem_namedSubtree_self r⟩
    rw [List.append_cons]
    apply mem_found_append
    rw [explore, List.foldl_append]
    change (r, chain) ∈ ((explore g scope before).step g scope r).found.toList
    simp only [Discovery.step, hnew]
    rw [Discovery.found_record]
    exact List.mem_append_right _ (List.mem_singleton.2 rfl)

theorem eq_of_pairwise_apart {found : List (Node × CallChain)}
    (hapart : found.Pairwise fun a b => a.1 ∉ namedSubtree b.1 ∧ b.1 ∉ namedSubtree a.1)
    {c : Node} {i j : Fin found.length} (hi : c ∈ namedSubtree (found.get i).1)
    (hj : c ∈ namedSubtree (found.get j).1) : i = j := by
  rw [List.pairwise_iff_get] at hapart
  rcases Nat.lt_trichotomy i j with hlt | heq | hgt
  · obtain ⟨hij, hji⟩ := hapart i j hlt
    rcases mem_namedSubtree_or_mem_namedSubtree hi hj with h | h
    · exact absurd h hij
    · exact absurd h hji
  · exact Fin.ext heq
  · obtain ⟨hji, hij⟩ := hapart j i hgt
    rcases mem_namedSubtree_or_mem_namedSubtree hi hj with h | h
    · exact absurd h hij
    · exact absurd h hji

/--
If links hold other links on their own walk only and no walk is cut short, every call within the
depth limit belongs to exactly one chain.
-/
theorem call_in_exactly_one_chain (language : Language) (scope : Scope) (source : Source)
    (tree : Tree) (f : Fallbacks)
    (hlinks : LinksOnWalk language.grammar (.root source tree))
    (hlimit : ((callChains language.grammar scope (.root source tree)).run f).2.depthLimitedChains =
      f.depthLimitedChains)
    {c : Node} {depth : Nat} (hc : (Node.root source tree).Reaches depth c)
    (hdepth : depth ≤ scope.limits.maxTreeDepth)
    (hcall : (language.grammar.classifyChain c).isCall) :
    let found := ((locatedCallChains language.grammar scope (.root source tree)).run f).1
    ∃! i : Fin found.length, c ∈ namedSubtree (found.get i).1 := by
  intro found
  have hfound : found = (explore language.grammar scope
      (scope.visited (.root source tree) 0)).found.toList := by
    simp only [found, run_locatedCallChains]
  obtain ⟨d, r, hd, hr, hkind, hfinds, houter, hmem⟩ :=
    exists_outermost rfl hlinks hc (language.isLink_of_isCall hcall) (findsCall_of_isCall hcall)
  have htally : (Scope.tally (discover language.grammar scope) {}
      (scope.visited (.root source tree) 0)).depthLimitedChains = 0 := by
    change ((locatedCallChains language.grammar scope (.root source tree)).run
      f).2.depthLimitedChains = _ at hlimit
    simp only [run_locatedCallChains, Fallbacks.depthLimitedChains_add] at hlimit
    omega
  have hvisited : r ∈ scope.visited (.root source tree) 0 :=
    Scope.mem_visited_of_reaches hr (by omega)
  obtain ⟨e, he, hre⟩ := exists_found_of_mem hvisited
    (fun n hn => (scope.sublist_visited _ 0).subset hn) htally hkind houter hfinds
  rw [← hfound] at he
  obtain ⟨i, rfl⟩ := List.mem_iff_get.1 he
  have hi := mem_namedSubtree_trans hmem hre
  refine ⟨i, hi, ?_⟩
  intro j hj
  have hapart := pairwise_apart_found language.grammar scope (.root source tree)
  rw [← hfound] at hapart
  exact eq_of_pairwise_apart hapart hj hi

theorem depthLimitedChains_tally {ns : List Node} (d : Discovery)
    (h : ∀ n ∈ ns, (callChain g scope n).cost.depthLimitedChains = 0) :
    (Scope.tally (discover g scope) d ns).depthLimitedChains = 0 := by
  induction ns generalizing d with
  | nil => rfl
  | cons n ns ih =>
    rw [List.forall_mem_cons] at h
    rw [Scope.tally, Fallbacks.depthLimitedChains_add, ih _ h.2,
      cost_of_run (run_discover g scope n d)]
    split
    · exact h.1
    · rfl

/--
The tree of `a.b(c())`.
-/
def nestedCall : Tree :=
  .node ⟨"call", true, false, none, 0, 8⟩ [
    .node ⟨"attribute", true, false, some "function", 0, 3⟩ [
      .node ⟨"identifier", true, false, some "object", 0, 1⟩ [],
      .node ⟨".", false, false, none, 1, 2⟩ [],
      .node ⟨"identifier", true, false, some "attribute", 2, 3⟩ []],
    .node ⟨"argument_list", true, false, some "arguments", 3, 8⟩ [
      .node ⟨"(", false, false, none, 3, 4⟩ [],
      .node ⟨"call", true, false, none, 4, 7⟩ [
        .node ⟨"identifier", true, false, some "function", 4, 5⟩ [],
        .node ⟨"argument_list", true, false, some "arguments", 5, 7⟩ [
          .node ⟨"(", false, false, none, 5, 6⟩ [],
          .node ⟨")", false, false, none, 6, 7⟩ []]],
      .node ⟨")", false, false, none, 7, 8⟩ []]]

theorem linksOnWalk_nestedCall :
    LinksOnWalk Python.grammar (.root (.ofString "a.b(c())") nestedCall) := by
  intro p hp hlink q hq hkind
  obtain ⟨callee, hcallee⟩ : ∃ callee,
      (Node.root (.ofString "a.b(c())") nestedCall).namedChildren[0]? = some callee := ⟨_, rfl⟩
  -- The callee of the outer call is the only link inside a link.
  have hpaths : ∀ p ∈ namedSubtree (.root (.ofString "a.b(c())") nestedCall),
      Python.grammar.isLink p.kind → ∀ q ∈ p.namedChildren, Python.grammar.isChainRoot q.kind →
        p.path = [] ∧ q.path = [0] := by
    decide +kernel
  obtain ⟨hppath, hqpath⟩ := hpaths p hp hlink q hq hkind
  obtain ⟨_, hp⟩ := mem_namedSubtree_iff.1 hp
  obtain rfl := hp.eq_of_path .refl hppath
  have hchild := Node.Reaches.child .refl (List.mem_of_getElem? hcallee)
  obtain rfl := (Node.Reaches.child .refl hq).eq_of_path hchild (by
    rw [hqpath]
    obtain rfl := Option.some.inj hcallee
    rfl)
  obtain rfl := Option.some.inj hcallee
  exact .inr ⟨_, .refl, rfl⟩

theorem inner_call_in_exactly_one_chain :
    let root := Node.root (.ofString "a.b(c())") nestedCall
    LinksOnWalk Python.grammar root ∧
    ((callChains Python.grammar ⟨"a.py", {}⟩ root).run {}).2.depthLimitedChains = 0 ∧
    ∃ c, root.Reaches 2 c ∧ (Python.grammar.classifyChain c).isCall ∧
      let found := ((locatedCallChains Python.grammar ⟨"a.py", {}⟩ root).run {}).1
      ∃! i : Fin found.length, c ∈ namedSubtree (found.get i).1 := by
  intro root
  have hlimit :
      ((callChains Python.grammar ⟨"a.py", {}⟩ root).run {}).2.depthLimitedChains = 0 := by
    change ((locatedCallChains Python.grammar ⟨"a.py", {}⟩ root).run {}).2.depthLimitedChains = _
    simp only [run_locatedCallChains, Fallbacks.depthLimitedChains_add]
    rw [depthLimitedChains_tally {} (by decide +kernel)]
  have hc := Node.Reaches.child
    (.child .refl (List.mem_of_getElem? (i := 1) (l := root.namedChildren) rfl))
    (List.mem_of_getElem? (i := 0) rfl)
  exact ⟨linksOnWalk_nestedCall, hlimit, _, hc, rfl,
    call_in_exactly_one_chain .python ⟨"a.py", {}⟩ _ nestedCall {} linksOnWalk_nestedCall hlimit hc
      (by decide) rfl⟩

end Extract

end Polyglot
