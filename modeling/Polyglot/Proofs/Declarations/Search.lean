import Mathlib.Logic.Relation
import Polyglot.Proofs.Declarations.Traversal

/-!
This module contains the search for declarations as a relation between nodes. A node that is looked
at owns the declarations that are recorded there, and opens the nodes in which the search goes on.
As long as nothing is skipped or truncated, a walk looks at the nodes that can be reached in this
way and records what they own. A node below one that is looked at is found, or some part of the tree
that holds it is passed over, and never both.
-/

namespace Polyglot

namespace Node

theorem not_mem_preorder_of_size_lt {n m : Node} (h : m.size < n.size) : n ∉ m.preorder := by
  intro hmem
  have := size_le_of_mem_preorder hmem
  omega

/--
Whether two nodes have nothing in common, and which comes first.
-/
def Before (a b : Node) : Prop := a.index + a.size ≤ b.index

theorem Before.of_mem {a b c d : Node} (h : a.Before b) (hc : c ∈ a.preorder)
    (hd : d ∈ b.preorder) : c.Before d := by
  have hc := index_of_mem_preorder hc
  have hd := index_of_mem_preorder hd
  unfold Before at *
  omega

theorem not_before_self (n : Node) : ¬n.Before n := by
  have := n.size_pos
  unfold Before
  omega

theorem eq_of_mem_preorder {nodes : List Node} (hnodes : nodes.Pairwise Before) {a b d : Node}
    (ha : a ∈ nodes) (hb : b ∈ nodes) (hda : d ∈ a.preorder) (hdb : d ∈ b.preorder) : a = b := by
  induction nodes with
  | nil => nomatch ha
  | cons n nodes ih =>
    rw [List.pairwise_cons] at hnodes
    rcases List.mem_cons.1 ha with rfl | ha'
    · rcases List.mem_cons.1 hb with rfl | hb'
      · rfl
      · exact absurd ((hnodes.1 b hb').of_mem hda hdb) d.not_before_self
    · rcases List.mem_cons.1 hb with rfl | hb'
      · exact absurd ((hnodes.1 a ha').of_mem hdb hda) d.not_before_self
      · exact ih hnodes.2 ha' hb'

end Node

namespace Extract

variable {ρ : Type}

/-! What a plan records and where it goes on -/

def Step.item? : Step ρ → Option ρ
  | record item => some item
  | _ => none

def Step.nodes : Step ρ → List Node
  | inside _ _ nodes _ => nodes
  | _ => []

namespace Plan

def items (plan : Plan ρ) : List ρ := plan.steps.filterMap Step.item?

/--
The nodes that are looked at after `n`, which the plan is for.
-/
def opened (plan : Plan ρ) (n : Node) : List Node :=
  plan.steps.flatMap Step.nodes ++ if plan.descend then n.namedChildren else []

/--
Whether a plan counts nothing.
-/
def Clean (plan : Plan ρ) : Prop := .skipped ∉ plan.steps ∧ .truncated ∉ plan.steps

end Plan

/--
Whether nothing was counted on a walk.
-/
def Clean (events : List (Event ρ)) : Prop := .skipped ∉ events ∧ .truncated ∉ events

theorem Clean.of_subset {events more : List (Event ρ)} (h : Clean more) (hsubset : events ⊆ more) :
    Clean events :=
  ⟨fun hmem => h.1 (hsubset hmem), fun hmem => h.2 (hsubset hmem)⟩

theorem clean_of_counted {events : List (Event ρ)}
    (hskipped : (counted events).skippedDeclarations = 0)
    (htruncated : (counted events).truncatedSubtrees = 0) : Clean events := by
  induction events with
  | nil => exact ⟨List.not_mem_nil, List.not_mem_nil⟩
  | cons event events ih =>
    have hcons : counted (event :: events) = event.cost + counted events := by
      rw [counted, counted, List.map_cons, List.sum_cons]
    rw [hcons] at hskipped htruncated
    have hskipped := Nat.add_eq_zero_iff.1 hskipped
    have htruncated := Nat.add_eq_zero_iff.1 htruncated
    obtain ⟨hrest, hrest'⟩ := ih hskipped.2 htruncated.2
    unfold Clean
    rw [List.mem_cons, List.mem_cons, not_or, not_or]
    refine ⟨⟨?_, hrest⟩, ?_, hrest'⟩
    · rintro rfl
      exact absurd hskipped.1 Nat.one_ne_zero
    · rintro rfl
      exact absurd htruncated.1 Nat.one_ne_zero

theorem mem_recorded {events : List (Event ρ)} {item : ρ} :
    item ∈ recorded events ↔ .record item ∈ events := by
  unfold recorded
  rw [List.mem_filterMap]
  constructor
  · rintro ⟨event, hevent, hitem⟩
    cases event with
    | record other =>
      cases hitem
      exact hevent
    | skipped => nomatch hitem
    | truncated => nomatch hitem
  · intro h
    exact ⟨_, h, rfl⟩

section Trace

variable {planner : Planner ρ} {scope : Scope} {scopes : List String} {n : Node} {depth : Nat}

theorem within_of_clean (h : Clean (trace planner scope scopes n depth)) :
    scopes.length ≤ scope.limits.maxScopeDepth ∧ depth ≤ scope.limits.maxTreeDepth := by
  constructor
  · by_contra hscopes
    rw [trace_of_scopes (Nat.lt_of_not_le hscopes)] at h
    exact h.2 List.mem_cons_self
  · by_contra hdepth
    rw [trace_of_depth (Nat.lt_of_not_le hdepth)] at h
    exact h.2 List.mem_cons_self

section Within

variable (hscopes : scopes.length ≤ scope.limits.maxScopeDepth)
  (hdepth : depth ≤ scope.limits.maxTreeDepth)

include hscopes hdepth

theorem stepEvents_subset_trace_of_le {step : Step ρ}
    (hstep : step ∈ (planner scope scopes n depth).steps) :
    stepEvents planner scope scopes step ⊆ trace planner scope scopes n depth := by
  rw [trace_eq hscopes hdepth]
  intro event hevent
  apply List.mem_append_left
  exact List.mem_flatMap.2 ⟨step, hstep, hevent⟩

theorem record_mem_trace_of_le {item : ρ} (hitem : item ∈ (planner scope scopes n depth).items) :
    .record item ∈ trace planner scope scopes n depth := by
  obtain ⟨step, hstep, hrecord⟩ := List.mem_filterMap.1 hitem
  cases step with
  | record other =>
    cases hrecord
    exact stepEvents_subset_trace_of_le hscopes hdepth hstep List.mem_cons_self
  | skipped => nomatch hrecord
  | truncated => nomatch hrecord
  | inside name more nodes depth => nomatch hrecord

theorem trace_subset_of_descend_of_le (hdescend : (planner scope scopes n depth).descend)
    {m : Node} (hm : m ∈ n.namedChildren) :
    trace planner scope scopes m (depth + 1) ⊆ trace planner scope scopes n depth := by
  intro event hevent
  rw [trace_eq hscopes hdepth, if_pos hdescend]
  apply List.mem_append_right
  exact List.mem_flatMap.2 ⟨m, hm, hevent⟩

end Within

theorem stepEvents_subset_trace (h : Clean (trace planner scope scopes n depth)) {step : Step ρ}
    (hstep : step ∈ (planner scope scopes n depth).steps) :
    stepEvents planner scope scopes step ⊆ trace planner scope scopes n depth := by
  obtain ⟨hscopes, hdepth⟩ := within_of_clean h
  exact stepEvents_subset_trace_of_le hscopes hdepth hstep

theorem clean_plan (h : Clean (trace planner scope scopes n depth)) :
    (planner scope scopes n depth).Clean := by
  constructor
  · intro hstep
    exact h.1 (stepEvents_subset_trace h hstep List.mem_cons_self)
  · intro hstep
    exact h.2 (stepEvents_subset_trace h hstep List.mem_cons_self)

theorem record_mem_trace (h : Clean (trace planner scope scopes n depth)) {item : ρ}
    (hitem : item ∈ (planner scope scopes n depth).items) :
    .record item ∈ trace planner scope scopes n depth := by
  obtain ⟨hscopes, hdepth⟩ := within_of_clean h
  exact record_mem_trace_of_le hscopes hdepth hitem

theorem trace_subset_of_descend (h : Clean (trace planner scope scopes n depth))
    (hdescend : (planner scope scopes n depth).descend) {m : Node} (hm : m ∈ n.namedChildren) :
    trace planner scope scopes m (depth + 1) ⊆ trace planner scope scopes n depth := by
  obtain ⟨hscopes, hdepth⟩ := within_of_clean h
  exact trace_subset_of_descend_of_le hscopes hdepth hdescend hm

theorem trace_subset_of_inside (h : Clean (trace planner scope scopes n depth)) {name : String}
    {more : List String} {nodes : List Node} {below : Nat}
    (hstep : .inside name more nodes below ∈ (planner scope scopes n depth).steps) {m : Node}
    (hm : m ∈ nodes) :
    trace planner scope (scopes ++ name :: more) m below ⊆ trace planner scope scopes n depth := by
  intro event hevent
  apply stepEvents_subset_trace h hstep
  exact List.mem_flatMap.2 ⟨m, hm, hevent⟩

theorem exists_trace_of_mem_opened (h : Clean (trace planner scope scopes n depth)) {m : Node}
    (hm : m ∈ (planner scope scopes n depth).opened n) :
    ∃ inner below, trace planner scope inner m below ⊆ trace planner scope scopes n depth := by
  rcases List.mem_append.1 hm with hm | hm
  · obtain ⟨step, hstep, hm⟩ := List.mem_flatMap.1 hm
    cases step with
    | record item => nomatch hm
    | skipped => nomatch hm
    | truncated => nomatch hm
    | inside name more nodes below =>
      exact ⟨_, _, trace_subset_of_inside h hstep hm⟩
  · split at hm
    case isFalse => nomatch hm
    case isTrue hdescend => exact ⟨_, _, trace_subset_of_descend h hdescend hm⟩

theorem mem_trace_cases (h : Clean (trace planner scope scopes n depth)) {item : ρ}
    (hitem : .record item ∈ trace planner scope scopes n depth) :
    item ∈ (planner scope scopes n depth).items ∨
      ∃ m ∈ (planner scope scopes n depth).opened n, ∃ inner below,
        .record item ∈ trace planner scope inner m below ∧
        trace planner scope inner m below ⊆ trace planner scope scopes n depth := by
  obtain ⟨hscopes, hdepth⟩ := within_of_clean h
  have hsplit := hitem
  rw [trace_eq hscopes hdepth, List.mem_append] at hsplit
  rcases hsplit with hhere | hbelow
  · obtain ⟨step, hstep, hevent⟩ := List.mem_flatMap.1 hhere
    cases step with
    | record other =>
      obtain rfl : item = other := Event.record.inj (List.mem_singleton.1 hevent)
      exact .inl (List.mem_filterMap.2 ⟨_, hstep, rfl⟩)
    | skipped => nomatch List.mem_singleton.1 hevent
    | truncated => nomatch List.mem_singleton.1 hevent
    | inside name more nodes below =>
      obtain ⟨m, hm, hevent⟩ := List.mem_flatMap.1 hevent
      refine .inr ⟨m, ?_, _, _, hevent, trace_subset_of_inside h hstep hm⟩
      apply List.mem_append_left
      exact List.mem_flatMap.2 ⟨_, hstep, hm⟩
  · split at hbelow
    case isFalse => nomatch hbelow
    case isTrue hdescend =>
      obtain ⟨m, hm, hevent⟩ := List.mem_flatMap.1 hbelow
      refine .inr ⟨m, ?_, _, _, hevent, trace_subset_of_descend h hdescend hm⟩
      unfold Plan.opened
      rw [if_pos hdescend]
      exact List.mem_append_right _ hm

end Trace

/--
What a node declares when it is looked at, and where the search goes on.
-/
structure Search where
  owns : Node → List Node
  opens : Node → List Node

namespace Search

/--
The search comes to `m` from `n` on.
-/
def Reaches (s : Search) : (n m : Node) → Prop := Relation.ReflTransGen fun n m => m ∈ s.opens n

def LooksAt (s : Search) (starts : List Node) (n : Node) : Prop :=
  ∃ start ∈ starts, s.Reaches start n

def Finds (s : Search) (starts : List Node) (d : Node) : Prop :=
  ∃ n, s.LooksAt starts n ∧ d ∈ s.owns n

/--
At `n` the search passes over `d`: it is below `n`, but it is not declared there, and nothing that
`n` opens holds it.
-/
structure Misses (s : Search) (n d : Node) : Prop where
  below : d ∈ n.preorder
  not_owned : d ∉ s.owns n
  not_opened : ∀ m ∈ s.opens n, d ∉ m.preorder

def PassesOver (s : Search) (starts : List Node) (d : Node) : Prop :=
  ∃ n, s.LooksAt starts n ∧ s.Misses n d

/--
The nodes of both lists are in `n`, those of the second list have nothing in common, and those of
the first list are not in them.
-/
structure Fits (n : Node) (owns opens : List Node) : Prop where
  owns_mem : ∀ d ∈ owns, d ∈ n.preorder
  opens_mem : ∀ m ∈ opens, m ∈ n.preorder
  opens_before : opens.Pairwise Node.Before
  not_mem : ∀ d ∈ owns, ∀ m ∈ opens, d ∉ m.preorder

namespace Fits

variable {n : Node} {owns opens : List Node}

theorem of_mem {m : Node} (h : Fits m owns opens) (hm : m ∈ n.preorder) : Fits n owns opens where
  owns_mem d hd := Node.mem_preorder_trans (h.owns_mem d hd) hm
  opens_mem d hd := Node.mem_preorder_trans (h.opens_mem d hd) hm
  opens_before := h.opens_before
  not_mem := h.not_mem

theorem self (n : Node) : Fits n [] [n] where
  owns_mem := nofun
  opens_mem m hm := by
    rw [List.mem_singleton.1 hm]
    apply Node.mem_preorder_self
  opens_before := List.pairwise_singleton _ _
  not_mem := nofun

theorem flatMap {parts : List Node} {owns opens : Node → List Node}
    (hmem : ∀ m ∈ parts, m ∈ n.preorder) (hbefore : parts.Pairwise Node.Before)
    (hfits : ∀ m ∈ parts, Fits m (owns m) (opens m)) :
    Fits n (parts.flatMap owns) (parts.flatMap opens) := by
  constructor
  · intro d hd
    obtain ⟨m, hm, hd⟩ := List.mem_flatMap.1 hd
    exact Node.mem_preorder_trans ((hfits m hm).owns_mem d hd) (hmem m hm)
  · intro d hd
    obtain ⟨m, hm, hd⟩ := List.mem_flatMap.1 hd
    exact Node.mem_preorder_trans ((hfits m hm).opens_mem d hd) (hmem m hm)
  · rw [List.pairwise_flatMap]
    refine ⟨fun m hm => (hfits m hm).opens_before, ?_⟩
    apply hbefore.imp_of_mem
    intro a b ha hb hab c hc d hd
    exact hab.of_mem ((hfits a ha).opens_mem c hc) ((hfits b hb).opens_mem d hd)
  · intro d hd k hk hdk
    obtain ⟨a, ha, hda⟩ := List.mem_flatMap.1 hd
    obtain ⟨b, hb, hkb⟩ := List.mem_flatMap.1 hk
    have hdb := Node.mem_preorder_trans hdk ((hfits b hb).opens_mem k hkb)
    obtain rfl := Node.eq_of_mem_preorder hbefore ha hb ((hfits a ha).owns_mem d hda) hdb
    exact (hfits a ha).not_mem d hda k hkb hdk

theorem append_self (h : Fits n owns opens) (hsize : ∀ m ∈ opens, m.size < n.size) :
    Fits n (owns ++ [n]) opens where
  owns_mem d hd := by
    rcases List.mem_append.1 hd with hd | hd
    · exact h.owns_mem d hd
    · rw [List.mem_singleton.1 hd]
      apply Node.mem_preorder_self
  opens_mem := h.opens_mem
  opens_before := h.opens_before
  not_mem d hd m hm := by
    rcases List.mem_append.1 hd with hd | hd
    · exact h.not_mem d hd m hm
    · rw [List.mem_singleton.1 hd]
      exact Node.not_mem_preorder_of_size_lt (hsize m hm)

end Fits

/--
Nodes strictly below `n` that have nothing in common.
-/
structure Inside (n : Node) (nodes : List Node) : Prop where
  mem_preorder : ∀ m ∈ nodes, m ∈ n.preorder
  size_lt : ∀ m ∈ nodes, m.size < n.size
  before : nodes.Pairwise Node.Before

namespace Inside

variable {n : Node} {nodes : List Node}

theorem nil (n : Node) : Inside n [] := ⟨nofun, nofun, .nil⟩

theorem of_mem_children {c : Node} (hc : c ∈ n.children) : Inside n [c] where
  mem_preorder m hm := by
    rw [List.mem_singleton.1 hm]
    exact Node.mem_preorder_of_mem_children hc c.mem_preorder_self
  size_lt m hm := by
    rw [List.mem_singleton.1 hm]
    exact Node.size_lt_of_mem_children hc
  before := List.pairwise_singleton _ _

theorem of_mem {m : Node} (h : Inside m nodes) (hm : m ∈ n.preorder) : Inside n nodes where
  mem_preorder k hk := Node.mem_preorder_trans (h.mem_preorder k hk) hm
  size_lt k hk := Nat.lt_of_lt_of_le (h.size_lt k hk) (Node.size_le_of_mem_preorder hm)
  before := h.before

theorem namedChildren (n : Node) : Inside n n.namedChildren where
  mem_preorder c hc := Node.mem_preorder_of_mem_children
    (Node.mem_children_of_mem_namedChildren hc) c.mem_preorder_self
  size_lt _ hc := Node.size_lt_of_mem_namedChildren hc
  before := n.pairwise_index_namedChildren

theorem field (n : Node) (name : String) : Inside n (n.field? name).toList := by
  cases hfield : n.field? name with
  | none => exact nil n
  | some c => exact of_mem_children (List.mem_of_find?_eq_some hfield)

/--
The nodes in the body of `n`.
-/
theorem body (n : Node) : Inside n ((n.field? "body").elim [] Node.namedChildren) := by
  cases hbody : n.field? "body" with
  | none => exact nil n
  | some body =>
    have hmem := (field n "body").mem_preorder body
    rw [hbody] at hmem
    exact (namedChildren body).of_mem (hmem List.mem_cons_self)

theorem fits (h : Inside n nodes) : Fits n [] nodes := ⟨nofun, h.mem_preorder, h.before, nofun⟩

theorem fits_self (h : Inside n nodes) : Fits n [n] nodes := h.fits.append_self h.size_lt

end Inside

structure Lawful (s : Search) : Prop where
  fits : ∀ n, Fits n (s.owns n) (s.opens n)
  size_lt : ∀ n, ∀ m ∈ s.opens n, m.size < n.size

section Lawful

variable {s : Search} (hs : s.Lawful)

include hs

theorem Lawful.mem_preorder_of_reaches {n m : Node} (h : s.Reaches n m) : m ∈ n.preorder := by
  induction h using Relation.ReflTransGen.head_induction_on with
  | refl => apply Node.mem_preorder_self
  | head hopens _ ih => exact Node.mem_preorder_trans ih ((hs.fits _).opens_mem _ hopens)

theorem Lawful.owned_or_missed {n d : Node} (hd : d ∈ n.preorder) :
    (∃ m, s.Reaches n m ∧ d ∈ s.owns m) ∨ ∃ m, s.Reaches n m ∧ s.Misses m d := by
  induction n using Node.sizeInduction with
  | step n ih =>
    by_cases howns : d ∈ s.owns n
    · exact .inl ⟨n, .refl, howns⟩
    by_cases hopens : ∃ m ∈ s.opens n, d ∈ m.preorder
    · obtain ⟨m, hm, hd⟩ := hopens
      rcases ih m (hs.size_lt n m hm) hd with ⟨k, hk, hd⟩ | ⟨k, hk, hd⟩
      · exact .inl ⟨k, .head hm hk, hd⟩
      · exact .inr ⟨k, .head hm hk, hd⟩
    · refine .inr ⟨n, .refl, hd, howns, ?_⟩
      intro m hm hd
      exact hopens ⟨m, hm, hd⟩

/--
Of two nodes that hold `d` and that the search comes to, one opens the way to `d`.
-/
theorem Lawful.eq_or_opened {n a b d : Node} (ha : s.Reaches n a) (hb : s.Reaches n b)
    (hda : d ∈ a.preorder) (hdb : d ∈ b.preorder) :
    a = b ∨ (∃ m ∈ s.opens a, d ∈ m.preorder) ∨ ∃ m ∈ s.opens b, d ∈ m.preorder := by
  induction ha using Relation.ReflTransGen.head_induction_on with
  | refl =>
    rcases hb.cases_head with rfl | ⟨m, hm, hmb⟩
    · exact .inl rfl
    · exact .inr (.inl ⟨m, hm, Node.mem_preorder_trans hdb (hs.mem_preorder_of_reaches hmb)⟩)
  | head hm hma ih =>
    have hdm := Node.mem_preorder_trans hda (hs.mem_preorder_of_reaches hma)
    rcases hb.cases_head with rfl | ⟨k, hk, hkb⟩
    · exact .inr (.inr ⟨_, hm, hdm⟩)
    · have hdk := Node.mem_preorder_trans hdb (hs.mem_preorder_of_reaches hkb)
      obtain rfl := Node.eq_of_mem_preorder (hs.fits _).opens_before hm hk hdm hdk
      exact ih hkb

theorem Lawful.not_misses {n a b d : Node} (ha : s.Reaches n a) (hb : s.Reaches n b)
    (hd : d ∈ s.owns a) : ¬s.Misses b d := by
  intro hmisses
  rcases hs.eq_or_opened ha hb ((hs.fits a).owns_mem d hd) hmisses.below with
    rfl | ⟨m, hm, hdm⟩ | ⟨m, hm, hdm⟩
  · exact hmisses.not_owned hd
  · exact (hs.fits a).not_mem d hd m hm hdm
  · exact hmisses.not_opened m hm hdm

/--
A node below the starting points is found, unless a part of the tree that holds it is passed over.
-/
theorem Lawful.finds_iff {starts : List Node} (hstarts : starts.Pairwise Node.Before) {d : Node}
    (hd : ∃ start ∈ starts, d ∈ start.preorder) :
    s.Finds starts d ↔ ¬s.PassesOver starts d := by
  constructor
  · rintro ⟨a, ⟨start, hstart, ha⟩, howns⟩ ⟨b, ⟨start', hstart', hb⟩, hmisses⟩
    have hda := Node.mem_preorder_trans ((hs.fits a).owns_mem d howns)
      (hs.mem_preorder_of_reaches ha)
    have hdb := Node.mem_preorder_trans hmisses.below (hs.mem_preorder_of_reaches hb)
    obtain rfl := Node.eq_of_mem_preorder hstarts hstart hstart' hda hdb
    exact hs.not_misses ha hb howns hmisses
  · intro hpasses
    obtain ⟨start, hstart, hd⟩ := hd
    rcases hs.owned_or_missed hd with ⟨n, hn, howns⟩ | ⟨n, hn, hmisses⟩
    · exact ⟨n, ⟨start, hstart, hn⟩, howns⟩
    · exact absurd ⟨n, ⟨start, hstart, hn⟩, hmisses⟩ hpasses

end Lawful

/-! The search as a walk takes it -/

section Walk

variable {s : Search} {planner : Planner ρ} {scope : Scope}

/--
Every plan that counts nothing goes on where the search does.
-/
def Guides (s : Search) (planner : Planner ρ) (scope : Scope) : Prop :=
  ∀ scopes n depth, (planner scope scopes n depth).Clean →
    (planner scope scopes n depth).opened n = s.opens n

theorem exists_trace_of_reaches (hguides : s.Guides planner scope) {n m : Node}
    (h : s.Reaches n m) {scopes : List String} {depth : Nat}
    (hclean : Clean (trace planner scope scopes n depth)) :
    ∃ inner below, trace planner scope inner m below ⊆ trace planner scope scopes n depth := by
  induction h using Relation.ReflTransGen.head_induction_on generalizing scopes depth with
  | refl => exact ⟨scopes, depth, List.Subset.refl _⟩
  | head hopens _ ih =>
    rw [← hguides scopes _ depth (clean_plan hclean)] at hopens
    obtain ⟨inner, below, hsubset⟩ := exists_trace_of_mem_opened hclean hopens
    obtain ⟨inner', below', hsubset'⟩ := ih (hclean.of_subset hsubset)
    exact ⟨inner', below', List.Subset.trans hsubset' hsubset⟩

theorem exists_reaches_of_record (hs : s.Lawful) (hguides : s.Guides planner scope) {n : Node}
    {scopes : List String} {depth : Nat} (hclean : Clean (trace planner scope scopes n depth))
    {item : ρ} (hitem : .record item ∈ trace planner scope scopes n depth) :
    ∃ m inner below, s.Reaches n m ∧ (planner scope inner m below).Clean ∧
      item ∈ (planner scope inner m below).items := by
  induction n using Node.sizeInduction generalizing scopes depth with
  | step n ih =>
    have hplan := clean_plan hclean
    rcases mem_trace_cases hclean hitem with hhere | ⟨m, hm, inner, below, hrecord, hsubset⟩
    · exact ⟨n, scopes, depth, .refl, hplan, hhere⟩
    · rw [hguides scopes n depth hplan] at hm
      obtain ⟨k, inner', below', hk, hcleanK, hitemK⟩ :=
        ih m (hs.size_lt n m hm) (hclean.of_subset hsubset) hrecord
      exact ⟨k, inner', below', .head hm hk, hcleanK, hitemK⟩

variable {starts : List Node}

theorem trace_subset_traceAll {start : Node} (h : start ∈ starts) :
    trace planner scope [] start 0 ⊆ traceAll planner scope starts := by
  intro event hevent
  exact List.mem_flatMap.2 ⟨start, h, hevent⟩

variable (hclean : Clean (traceAll planner scope starts))

include hclean

/--
What a node that is looked at plans to record is recorded.
-/
theorem exists_plan_of_looksAt (hguides : s.Guides planner scope) {n : Node}
    (h : s.LooksAt starts n) :
    ∃ scopes depth, (planner scope scopes n depth).Clean ∧
      ∀ item ∈ (planner scope scopes n depth).items,
        item ∈ recorded (traceAll planner scope starts) := by
  obtain ⟨start, hstart, hreaches⟩ := h
  have hsubset : trace planner scope [] start 0 ⊆ traceAll planner scope starts :=
    trace_subset_traceAll hstart
  obtain ⟨scopes, depth, hsubset'⟩ :=
    exists_trace_of_reaches hguides hreaches (hclean.of_subset hsubset)
  have hcleanN := (hclean.of_subset hsubset).of_subset hsubset'
  refine ⟨scopes, depth, clean_plan hcleanN, ?_⟩
  intro item hitem
  rw [mem_recorded]
  apply hsubset
  apply hsubset'
  exact record_mem_trace hcleanN hitem

/--
What is recorded is planned at a node that is looked at.
-/
theorem exists_looksAt_of_recorded (hs : s.Lawful) (hguides : s.Guides planner scope) {item : ρ}
    (h : item ∈ recorded (traceAll planner scope starts)) :
    ∃ n scopes depth, s.LooksAt starts n ∧ (planner scope scopes n depth).Clean ∧
      item ∈ (planner scope scopes n depth).items := by
  rw [mem_recorded] at h
  obtain ⟨start, hstart, hrecord⟩ := List.mem_flatMap.1 h
  have hcleanStart := hclean.of_subset (trace_subset_traceAll hstart)
  obtain ⟨n, scopes, depth, hreaches, hplan, hitem⟩ :=
    exists_reaches_of_record hs hguides hcleanStart hrecord
  exact ⟨n, scopes, depth, ⟨start, hstart, hreaches⟩, hplan, hitem⟩

/--
A node is described by a record if and only if the search finds it.
-/
theorem exists_describes_iff (hs : s.Lawful) (hguides : s.Guides planner scope)
    {describes : ρ → Prop} {d : Node}
    (hdescribed : ∀ scopes n depth, (planner scope scopes n depth).Clean → d ∈ s.owns n →
      ∃ item ∈ (planner scope scopes n depth).items, describes item)
    (howned : ∀ scopes n depth, s.LooksAt starts n → (planner scope scopes n depth).Clean →
      ∀ item ∈ (planner scope scopes n depth).items, describes item → s.Finds starts d) :
    (∃ item ∈ recorded (traceAll planner scope starts), describes item) ↔ s.Finds starts d := by
  constructor
  · rintro ⟨item, hitem, hdescribes⟩
    obtain ⟨n, scopes, depth, hn, hplan, hitem⟩ :=
      exists_looksAt_of_recorded hclean hs hguides hitem
    exact howned scopes n depth hn hplan item hitem hdescribes
  · rintro ⟨n, hn, hd⟩
    obtain ⟨scopes, depth, hplan, hrecorded⟩ := exists_plan_of_looksAt hclean hguides hn
    obtain ⟨item, hitem, hdescribes⟩ := hdescribed scopes n depth hplan hd
    exact ⟨item, hrecorded item hitem, hdescribes⟩

end Walk

/-! What the steps of a plan record -/

section Shows

variable {describes sits : ρ → Node → Prop} {steps more : List (Step ρ)}
  {owns owns' opens opens' : List Node}

/--
The steps go on in `opens`. They record something that describes each node of `owns`, and nothing
that sits at another node.
-/
structure Shows (describes sits : ρ → Node → Prop) (steps : List (Step ρ))
    (owns opens : List Node) : Prop where
  nodes_eq : steps.flatMap Step.nodes = opens
  described : ∀ d ∈ owns, ∃ item ∈ steps.filterMap Step.item?, describes item d
  owned : ∀ item ∈ steps.filterMap Step.item?, ∀ d, sits item d → d ∈ owns

theorem Shows.append (h : Shows describes sits steps owns opens)
    (h' : Shows describes sits more owns' opens') :
    Shows describes sits (steps ++ more) (owns ++ owns') (opens ++ opens') := by
  constructor
  · rw [List.flatMap_append, h.nodes_eq, h'.nodes_eq]
  · intro d hd
    rw [List.filterMap_append]
    rcases List.mem_append.1 hd with hd | hd
    · obtain ⟨item, hitem, hdescribes⟩ := h.described d hd
      exact ⟨item, List.mem_append_left _ hitem, hdescribes⟩
    · obtain ⟨item, hitem, hdescribes⟩ := h'.described d hd
      exact ⟨item, List.mem_append_right _ hitem, hdescribes⟩
  · intro item hitem d hsits
    rw [List.filterMap_append] at hitem
    rcases List.mem_append.1 hitem with hitem | hitem
    · exact List.mem_append_left _ (h.owned item hitem d hsits)
    · exact List.mem_append_right _ (h'.owned item hitem d hsits)

theorem shows_nil : Shows describes sits [] [] [] := ⟨rfl, nofun, nofun⟩

theorem shows_flatMap {α : Type} {as : List α} {steps : α → List (Step ρ)}
    {owns opens : α → List Node} (h : ∀ a ∈ as, Shows describes sits (steps a) (owns a) (opens a)) :
    Shows describes sits (as.flatMap steps) (as.flatMap owns) (as.flatMap opens) := by
  induction as with
  | nil => exact shows_nil
  | cons a as ih =>
    rw [List.forall_mem_cons] at h
    exact h.1.append (ih h.2)

theorem shows_record {item : ρ} {d : Node} (hdescribes : describes item d)
    (hsits : ∀ k, sits item k → k = d) : Shows describes sits [.record item] [d] [] := by
  constructor
  · rfl
  · intro k hk
    rw [List.mem_singleton.1 hk]
    exact ⟨item, List.mem_cons_self, hdescribes⟩
  · intro other hother k hk
    rw [List.mem_singleton.1 hother] at hk
    rw [hsits k hk]
    exact List.mem_cons_self

theorem shows_inside (name : String) (more : List String) (nodes : List Node) (depth : Nat) :
    Shows describes sits [.inside name more nodes depth] [] nodes :=
  ⟨List.append_nil _, nofun, nofun⟩

end Shows

end Search

namespace Declared

def node : Declared → Node
  | function node _ => node
  | type node _ => node

/--
The record of a node that has a name: it has this name and stands where the node does.
-/
def Describes (file : String) (d : Node) : Declared → Prop
  | function node decl =>
    node = d ∧ d.fieldText? "name" = some decl.name ∧ decl.file = file ∧
      decl.start = d.start ∧ decl.stop = d.stop
  | type node decl =>
    node = d ∧ d.fieldText? "name" = some decl.name ∧ decl.file = file ∧
      decl.startLine = d.start.line ∧ decl.endLine = d.stop.line

theorem Describes.node_eq {file : String} {d : Node} {e : Declared} (h : e.Describes file d) :
    e.node = d := by
  cases e with
  | function node decl => exact h.1
  | type node decl => exact h.1

end Declared

end Extract

end Polyglot
