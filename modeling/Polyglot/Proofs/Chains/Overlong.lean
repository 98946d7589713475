import Mathlib.Tactic.Abel
import Polyglot.Grammar.Rust
import Polyglot.Proofs.Chains.Attempts
import Polyglot.Proofs.Lists

/-!
This module contains the search around a chain that is longer than the limit. The walk from its
outermost node finds nothing and claims nothing, so the search goes on below this node as it would
anywhere else. The chains elsewhere in the tree do not notice.
-/

namespace Polyglot.Extract

open CountM

variable {g : Grammar} {scope : Scope}

/--
The nodes that a search looks at, seen from the node `n`: those before it, those below it and those
behind them.
-/
structure Around (scope : Scope) (root n : Node) (before below behind : List Node) : Prop where
  visited : scope.visited root 0 = before ++ n :: (below ++ behind)
  not_before : ∀ m ∈ before, m ∉ namedSubtree n
  is_below : ∀ m ∈ below, m ∈ namedSubtree n
  not_behind : ∀ m ∈ behind, m ∉ namedSubtree n

theorem exists_around {root n : Node} {before rest : List Node}
    (h : scope.visited root 0 = before ++ n :: rest) :
    ∃ below behind, rest = below ++ behind ∧ Around scope root n before below behind := by
  have hsub := scope.sublist_visited root 0
  rw [h] at hsub
  have hindex := (pairwise_index_namedSubtree root).sublist hsub
  have hplace := (pairwise_below_or_behind root).sublist hsub
  rw [List.pairwise_append, List.pairwise_cons] at hindex hplace
  -- In preorder, the nodes below `n` are the first ones behind it.
  have hrest : rest.Pairwise fun a b => b ∈ namedSubtree n → a ∈ namedSubtree n := by
    apply hindex.2.1.2.imp_of_mem
    intro a b ha _ hab hb
    rcases hplace.2.1.1 a ha with hbelow | hbehind
    · exact hbelow
    · have := (index_of_mem_namedSubtree hb).2
      have := b.size_pos
      omega
  obtain ⟨below, behind, rfl, hbelow, hbehind⟩ := exists_append_of_pairwise hrest
  refine ⟨below, behind, rfl, h, ?_, hbelow, hbehind⟩
  intro m hm
  exact not_mem_namedSubtree_of_index_lt (hindex.2.2 m hm n List.mem_cons_self)

theorem Discovery.step_of_none {n : Node} (h : (callChain g scope n).value = none)
    (d : Discovery) : d.step g scope n = d := by
  simp [step, newChain?, h]

namespace Around

variable {root n : Node} {before below behind : List Node}

theorem mem_root (h : Around scope root n before below behind) :
    (∀ m ∈ before, m ∈ namedSubtree root) ∧ n ∈ namedSubtree root ∧
      (∀ m ∈ below, m ∈ namedSubtree root) ∧ ∀ m ∈ behind, m ∈ namedSubtree root := by
  have hroot : ∀ m ∈ scope.visited root 0, m ∈ namedSubtree root :=
    fun m hm => mem_namedSubtree_of_mem_visited hm
  rwa [h.visited, List.forall_mem_append, List.forall_mem_cons, List.forall_mem_append] at hroot

/--
Where a chain may begin at `n`, nothing below `n` is claimed by a chain before it.
-/
theorem not_claimed_below (h : Around scope root n before below behind)
    (hstart : (explore g scope before).startsAt g n) :
    ∀ m ∈ below, m.path ∉ (explore g scope before).claimed := by
  obtain ⟨hbefore, hn, hbelow, -⟩ := h.mem_root
  obtain ⟨hroot, hfree, -⟩ := Discovery.startsAt_iff.1 hstart
  rw [mem_claimed_explore_iff hbefore hn] at hfree
  intro m hm
  rw [mem_claimed_explore_iff hbefore (hbelow m hm)]
  rintro ⟨-, e, he, hmem⟩
  rcases mem_namedSubtree_or_mem_namedSubtree hmem (h.is_below m hm) with habove | habove
  · exact h.not_before e.1 (mem_of_mem_foundIn he) habove
  · exact hfree ⟨hroot, e, he, habove⟩

theorem explore_cons (hnone : (callChain g scope n).value = none) (ms : List Node) :
    explore g scope (before ++ n :: ms) =
      ms.foldl (Discovery.step g scope) (explore g scope before) := by
  rw [explore, List.foldl_append, List.foldl_cons, Discovery.step_of_none hnone]
  rfl

theorem search_below (h : Around scope root n before below behind)
    (hstart : (explore g scope before).startsAt g n) :
    (below.foldl (Discovery.step g scope) (explore g scope before)).found.toList =
      foundIn g scope before ++ foundIn g scope below ∧
    Scope.tally (discover g scope) (explore g scope before) below = countedIn g scope below := by
  have hagree : ∀ m ∈ below, m.path ∈ (explore g scope before).claimed ↔
      m.path ∈ ({} : Discovery).claimed := by
    intro m hm
    simp [h.not_claimed_below hstart m hm]
  obtain ⟨⟨new, hbefore, hempty⟩, htally⟩ := Discovery.foldl_step_of_agree scope hagree
  have hnew : foundIn g scope below = new := hempty
  rw [hnew]
  exact ⟨hbefore, htally⟩

/--
The chains found below `n` claim nothing behind it.
-/
theorem claimed_behind (h : Around scope root n before below behind)
    (hstart : (explore g scope before).startsAt g n)
    (hnone : (callChain g scope n).value = none) {m : Node} (hm : m ∈ behind) :
    m.path ∈ (explore g scope (before ++ n :: below)).claimed ↔
      m.path ∈ (explore g scope before).claimed := by
  obtain ⟨hbefore, hn, hbelow, hbehind⟩ := h.mem_root
  have hall : ∀ m ∈ before ++ n :: below, m ∈ namedSubtree root := by
    rw [List.forall_mem_append, List.forall_mem_cons]
    exact ⟨hbefore, hn, hbelow⟩
  have hfound : foundIn g scope (before ++ n :: below) =
      foundIn g scope before ++ foundIn g scope below := by
    rw [foundIn, explore_cons hnone, (h.search_below hstart).1]
  rw [mem_claimed_explore_iff hall (hbehind m hm), mem_claimed_explore_iff hbefore (hbehind m hm),
    hfound]
  apply and_congr_right
  intro _
  constructor
  · rintro ⟨e, he, hmem⟩
    rcases List.mem_append.1 he with he | he
    · exact ⟨e, he, hmem⟩
    · have hebelow := h.is_below e.1 (mem_of_mem_foundIn he)
      exact absurd (mem_namedSubtree_trans hmem hebelow) (h.not_behind m hm)
  · rintro ⟨e, he, hmem⟩
    exact ⟨e, List.mem_append_left _ he, hmem⟩

/--
If the walk from `n` finds nothing, the search finds and counts below `n` what it would find and
count there on its own, and elsewhere what it would without the nodes at `n`.
-/
theorem search (h : Around scope root n before below behind)
    (hstart : (explore g scope before).startsAt g n)
    (hnone : (callChain g scope n).value = none) :
    (∃ left right, (∀ e ∈ left ++ right, e.1 ∉ namedSubtree n) ∧
      foundIn g scope (before ++ behind) = left ++ right ∧
      foundIn g scope (scope.visited root 0) = left ++ (foundIn g scope below ++ right)) ∧
    countedIn g scope (scope.visited root 0) =
      countedIn g scope (before ++ behind) +
        ((callChain g scope n).cost + countedIn g scope below) := by
  obtain ⟨hfound, hbelow⟩ := h.search_below hstart
  have hagree : ∀ m ∈ behind,
      m.path ∈ (below.foldl (Discovery.step g scope) (explore g scope before)).claimed ↔
        m.path ∈ (explore g scope before).claimed := by
    intro m hm
    rw [← explore_cons hnone]
    exact h.claimed_behind hstart hnone hm
  obtain ⟨⟨new, hwith, hwithout⟩, hbehind⟩ := Discovery.foldl_step_of_agree scope hagree
  have helsewhere : foundIn g scope (before ++ behind) = foundIn g scope before ++ new := by
    rw [foundIn, explore, List.foldl_append]
    exact hwithout
  constructor
  · refine ⟨foundIn g scope before, new, ?_, helsewhere, ?_⟩
    · intro e he
      rw [← helsewhere] at he
      rcases List.mem_append.1 (mem_of_mem_foundIn he) with hmem | hmem
      · exact h.not_before e.1 hmem
      · exact h.not_behind e.1 hmem
    · rw [h.visited, foundIn, explore_cons hnone, List.foldl_append, hwith, hfound,
        List.append_assoc]
  · rw [h.visited, countedIn, countedIn, Scope.tally_append, Scope.tally_append, Scope.tally,
      Scope.tally_append, advance_discover, ← explore, Discovery.step_of_none hnone, hbelow,
      hbehind, cost_of_run (run_discover g scope n (explore g scope before)), if_pos hstart]
    abel

end Around

/--
The chain at `n` is longer than the limit.
-/
def Overlong (g : Grammar) (scope : Scope) (n : Node) : Prop :=
  (walkChain g scope scope.limits.maxChainDepth n []).value = none

instance (g : Grammar) (scope : Scope) (n : Node) : Decidable (Overlong g scope n) :=
  inferInstanceAs (Decidable (_ = none))

theorem overlong_iff {n : Node} :
    Overlong g scope n ↔ cursors g scope.limits.maxChainDepth n = none := by
  rw [Overlong, value_walkChain, Option.map_eq_none_iff]

theorem Overlong.value_callChain {n : Node} (h : Overlong g scope n) :
    (callChain g scope n).value = none := by
  rw [Extract.value_callChain, overlong_iff.1 h, Option.bind_none]

theorem depthLimitedChains_of_overlong (g : Grammar) (scope : Scope) (n : Node) :
    (callChain g scope n).cost.depthLimitedChains = if Overlong g scope n then 1 else 0 := by
  rw [depthLimitedChains_callChain]
  cases hcs : cursors g scope.limits.maxChainDepth n with
  | none => rw [if_pos (overlong_iff.2 hcs), Option.isSome_none, if_neg Bool.false_ne_true]
  | some cs =>
    have hshort : ¬ Overlong g scope n := by
      rw [overlong_iff, hcs]
      exact Option.some_ne_none cs
    rw [if_neg hshort, Option.isSome_some, if_pos rfl]

theorem foundIn_ne_nil {n : Node} {chain : CallChain} (houter : isOutermost g n)
    (hchain : chainAt? g scope n = some chain) (ns : List Node) :
    foundIn g scope (n :: ns) ≠ [] := by
  have hagree : ∀ m ∈ ns, m.path ∈ (Discovery.record {} g n chain).claimed ↔
      m.path ∈ (Discovery.record {} g n chain).claimed :=
    fun _ _ => Iff.rfl
  obtain ⟨⟨new, hnew, -⟩, -⟩ := Discovery.foldl_step_of_agree (g := g) scope hagree
  rw [foundIn, explore, List.foldl_cons, Discovery.step_empty_of_some houter hchain, hnew,
    Discovery.found_record]
  simp

/--
A search finds no chain and none beyond the limit if there is none at the outermost links and marks.
-/
theorem search_quiet_iff (g : Grammar) (scope : Scope) (ns : List Node) :
    foundIn g scope ns = [] ∧ (countedIn g scope ns).depthLimitedChains = 0 ↔
      ∀ m ∈ ns, isOutermost g m → chainAt? g scope m = none ∧ ¬ Overlong g scope m := by
  induction ns with
  | nil => exact ⟨fun _ => by simp, fun _ => ⟨rfl, rfl⟩⟩
  | cons n ns ih =>
    rw [List.forall_mem_cons, ← ih]
    by_cases houter : isOutermost g n
    · cases hchain : chainAt? g scope n with
      | some chain => simp [foundIn_ne_nil houter hchain ns, houter]
      | none =>
        obtain ⟨hfound, hcounted⟩ := search_cons_of_none scope ns fun _ => hchain
        rw [hfound, hcounted, if_pos houter, Fallbacks.depthLimitedChains_add,
          depthLimitedChains_of_overlong]
        by_cases hlong : Overlong g scope n
        · simp [hlong, houter]
        · simp [hlong]
    · obtain ⟨hfound, hcounted⟩ := search_cons_of_none scope ns fun h => absurd h houter
      rw [hfound, hcounted, if_neg houter, zero_add]
      simp [houter]

open Classical in
/--
The search leaves out a chain beyond the limit and counts it once, and it finds the same chains
elsewhere as if it did not look at the nodes of this chain. What it finds below the outermost node
is what a search of these nodes alone finds. So the chain is left out as a whole exactly if no other
chain below it is found or beyond the limit.
-/
theorem overlong_chain_dropped_iff (g : Grammar) (scope : Scope) (root : Node) (f : Fallbacks)
    {n : Node} {before rest : List Node} (hvisited : scope.visited root 0 = before ++ n :: rest)
    (hstart : (explore g scope before).startsAt g n) (hlong : Overlong g scope n) :
    let run := (locatedCallChains g scope root).run f
    let outside := (scope.visited root 0).filter (· ∉ namedSubtree n)
    let below := rest.filter (· ∈ namedSubtree n)
    run.1.filter (·.1 ∉ namedSubtree n) = foundIn g scope outside ∧
    run.1.filter (·.1 ∈ namedSubtree n) = foundIn g scope below ∧
    run.2.depthLimitedChains = f.depthLimitedChains +
      (countedIn g scope outside).depthLimitedChains +
      (1 + (countedIn g scope below).depthLimitedChains) ∧
    ((∀ e ∈ run.1, e.1 ∉ namedSubtree n) ∧
        run.2.depthLimitedChains =
          f.depthLimitedChains + (countedIn g scope outside).depthLimitedChains + 1 ↔
      ∀ m ∈ below, isOutermost g m → chainAt? g scope m = none ∧ ¬ Overlong g scope m) := by
  intro run outside below
  obtain ⟨inside, behind, rfl, h⟩ := exists_around hvisited
  have hbelow : below = inside :=
    (filter_of_middle (l := []) (by simp) h.is_below h.not_behind).1
  have houtside : outside = before ++ behind := by
    have hself : ∀ m ∈ n :: inside, m ∈ namedSubtree n :=
      List.forall_mem_cons.2 ⟨mem_namedSubtree_self n, h.is_below⟩
    simp only [outside]
    rw [h.visited]
    exact (filter_of_middle h.not_before hself h.not_behind).2
  obtain ⟨⟨left, right, hout, helsewhere, hfound⟩, hcounted⟩ :=
    h.search hstart hlong.value_callChain
  have hrun : run.1 = left ++ (foundIn g scope inside ++ right) := by
    simp only [run, run_locatedCallChains]
    exact hfound
  have hinside : ∀ e ∈ foundIn g scope inside, e.1 ∈ namedSubtree n :=
    fun e he => h.is_below e.1 (mem_of_mem_foundIn he)
  rw [List.forall_mem_append] at hout
  have hfilter := filter_of_middle (p := fun e : Node × CallChain => e.1 ∈ namedSubtree n)
    hout.1 hinside hout.2
  have hcount : run.2.depthLimitedChains = f.depthLimitedChains +
      (countedIn g scope (before ++ behind)).depthLimitedChains +
      (1 + (countedIn g scope inside).depthLimitedChains) := by
    simp only [run, run_locatedCallChains, Fallbacks.depthLimitedChains_add]
    rw [← countedIn, hcounted]
    simp only [Fallbacks.depthLimitedChains_add, depthLimitedChains_of_overlong, if_pos hlong]
    omega
  rw [hbelow, houtside, hcount, hrun, helsewhere, ← search_quiet_iff]
  refine ⟨hfilter.2, hfilter.1, rfl, ?_⟩
  have hnothing : (∀ e ∈ left ++ (foundIn g scope inside ++ right), e.1 ∉ namedSubtree n) ↔
      foundIn g scope inside = [] := by
    conv_rhs => rw [← hfilter.1, List.filter_eq_nil_iff]
    simp only [decide_eq_true_iff]
  rw [hnothing]
  apply and_congr_right
  intro _
  omega

/--
The tree of `a().b().c()`.
-/
def threeCalls : Tree :=
  .node ⟨"call_expression", true, false, none, 0, 11⟩ [
    .node ⟨"field_expression", true, false, some "function", 0, 9⟩ [
      .node ⟨"call_expression", true, false, some "value", 0, 7⟩ [
        .node ⟨"field_expression", true, false, some "function", 0, 5⟩ [
          .node ⟨"call_expression", true, false, some "value", 0, 3⟩ [
            .node ⟨"identifier", true, false, some "function", 0, 1⟩ [],
            .node ⟨"arguments", true, false, some "arguments", 1, 3⟩ []],
          .node ⟨".", false, false, none, 3, 4⟩ [],
          .node ⟨"field_identifier", true, false, some "field", 4, 5⟩ []],
        .node ⟨"arguments", true, false, some "arguments", 5, 7⟩ []],
      .node ⟨".", false, false, none, 7, 8⟩ [],
      .node ⟨"field_identifier", true, false, some "field", 8, 9⟩ []],
    .node ⟨"arguments", true, false, some "arguments", 9, 11⟩ []]

/--
A chain of calls without `?` and without arguments is left out as a whole.
-/
theorem threeCalls_dropped :
    let scope : Scope := ⟨"a.rs", { maxChainDepth := 2 }⟩
    let root := Node.root (.ofString "a().b().c()") threeCalls
    let run := (locatedCallChains Rust.grammar scope root).run 0
    (explore Rust.grammar scope []).startsAt Rust.grammar root ∧
    Overlong Rust.grammar scope root ∧
    ∀ e ∈ run.1, e.1 ∉ namedSubtree root := by
  intro scope root run
  have hvisited : scope.visited root 0 =
      [] ++ root :: root.namedChildren.flatMap (scope.visited · 1) := by
    rw [Scope.visited_eq, if_neg (by decide)]
    rfl
  have hstart : (explore Rust.grammar scope []).startsAt Rust.grammar root := by
    rw [explore, List.foldl_nil, Discovery.startsAt_empty]
    decide
  have hlong : Overlong Rust.grammar scope root := by decide +kernel
  have hinner : ∀ m ∈ root.namedChildren.flatMap (scope.visited · 1),
      ¬ isOutermost Rust.grammar m := by
    decide +kernel
  obtain ⟨-, -, -, hiff⟩ :=
    overlong_chain_dropped_iff Rust.grammar scope root 0 hvisited hstart hlong
  refine ⟨hstart, hlong, (hiff.2 ?_).1⟩
  intro m hm houter
  exact absurd houter (hinner m (List.mem_filter.1 hm).1)

/--
The tree of `a()?.b()?`.
-/
def twoTries : Tree :=
  .node ⟨"try_expression", true, false, none, 0, 9⟩ [
    .node ⟨"call_expression", true, false, none, 0, 8⟩ [
      .node ⟨"field_expression", true, false, some "function", 0, 6⟩ [
        .node ⟨"try_expression", true, false, some "value", 0, 4⟩ [
          .node ⟨"call_expression", true, false, none, 0, 3⟩ [
            .node ⟨"identifier", true, false, some "function", 0, 1⟩ [],
            .node ⟨"arguments", true, false, some "arguments", 1, 3⟩ []],
          .node ⟨"?", false, false, none, 3, 4⟩ []],
        .node ⟨".", false, false, none, 4, 5⟩ [],
        .node ⟨"field_identifier", true, false, some "field", 5, 6⟩ []],
      .node ⟨"arguments", true, false, some "arguments", 6, 8⟩ []],
    .node ⟨"?", false, false, none, 8, 9⟩ []]

/--
Below a `?`, the search looks for a chain once more: the chain is counted a second time, and its
innermost call is found.
-/
theorem twoTries_not_dropped :
    let scope : Scope := ⟨"a.rs", { maxChainDepth := 2 }⟩
    let root := Node.root (.ofString "a()?.b()?") twoTries
    let run := (locatedCallChains Rust.grammar scope root).run 0
    isOutermost Rust.grammar root ∧ Overlong Rust.grammar scope root ∧
    run.1.map (·.2.raw) = ["a()"] ∧ run.2.depthLimitedChains = 2 := by
  intro scope root run
  simp only [run, run_locatedCallChains_attempts]
  decide +kernel

end Polyglot.Extract
