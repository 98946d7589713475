import Mathlib.Data.List.Pairwise
import Polyglot.Extract.Chains

/-!
This module contains the order of the nodes of a tree. The nodes below a node are listed in
preorder, each once, and so are those that are reached through named nodes. A node is known by its
path from the root.
-/

namespace Polyglot

namespace Tree

@[simp]
theorem sizeAll_append (ts us : List Tree) : sizeAll (ts ++ us) = sizeAll ts + sizeAll us := by
  induction ts with
  | nil => simp [sizeAll]
  | cons t ts ih =>
    rw [List.cons_append, sizeAll, sizeAll, ih]
    omega

@[simp]
theorem sizeAll_reverse (ts : List Tree) : sizeAll ts.reverse = sizeAll ts := by
  induction ts with
  | nil => rfl
  | cons t ts ih =>
    rw [List.reverse_cons, sizeAll_append, ih]
    simp only [sizeAll]
    omega

theorem size_eq (t : Tree) : t.size = 1 + sizeAll t.children := by
  cases t
  rw [size, children_node]

end Tree

namespace Node

/--
The child `t` of `n` that stands between `before`, nearest first, and `after`.
-/
def childAt (n : Node) (before : List Tree) (t : Tree) (after : List Tree) : Node :=
  ⟨n.source, t, ⟨n.label, before, after⟩ :: n.above⟩

theorem mem_place_iff {n c : Node} {before ts : List Tree} :
    c ∈ n.place before ts ↔ ∃ us t after,
      ts = us ++ t :: after ∧ c = n.childAt (us.reverse ++ before) t after := by
  induction ts generalizing before with
  | nil => simp [place]
  | cons t ts ih =>
    rw [place, List.mem_cons, ih]
    constructor
    · rintro (rfl | ⟨us, u, after, rfl, rfl⟩)
      · exact ⟨[], t, ts, rfl, rfl⟩
      · exact ⟨t :: us, u, after, rfl, by simp⟩
    · rintro ⟨us, u, after, hts, rfl⟩
      cases us with
      | nil =>
        obtain ⟨rfl, rfl⟩ := List.cons.inj hts
        exact .inl rfl
      | cons v us =>
        obtain ⟨rfl, rfl⟩ := List.cons.inj hts
        exact .inr ⟨us, u, after, rfl, by simp⟩

theorem mem_children_iff {n c : Node} :
    c ∈ n.children ↔ ∃ before t after,
      n.tree.children = before.reverse ++ t :: after ∧ c = n.childAt before t after := by
  rw [children, mem_place_iff]
  constructor
  · rintro ⟨us, t, after, hts, rfl⟩
    exact ⟨us.reverse, t, after, by rw [List.reverse_reverse, hts], by rw [List.append_nil]⟩
  · rintro ⟨before, t, after, hts, rfl⟩
    exact ⟨before.reverse, t, after, hts, by simp⟩

theorem parent?_of_mem_children {n c : Node} (h : c ∈ n.children) : c.parent? = some n := by
  obtain ⟨before, t, after, hts, rfl⟩ := mem_children_iff.1 h
  obtain ⟨source, ⟨label, ts⟩, above⟩ := n
  simp only [Tree.children_node] at hts
  simp [parent?, childAt, Node.label, hts]

theorem parentKind?_of_mem_children {n c : Node} (h : c ∈ n.children) :
    c.parentKind? = some n.kind := by
  obtain ⟨before, t, after, -, rfl⟩ := mem_children_iff.1 h
  rfl

theorem path_of_mem_children {n c : Node} (h : c ∈ n.children) :
    ∃ i, c.path = i :: n.path ∧ ∀ d ∈ n.children, d.path = i :: n.path → d = c := by
  obtain ⟨before, t, after, hts, rfl⟩ := mem_children_iff.1 h
  refine ⟨before.length, rfl, ?_⟩
  intro d hd hpath
  obtain ⟨before', t', after', hts', rfl⟩ := mem_children_iff.1 hd
  have hlen : before'.reverse.length = before.reverse.length := by
    simpa using (List.cons.inj hpath).1
  obtain ⟨hbefore, hrest⟩ := List.append_inj (hts'.symm.trans hts) hlen
  obtain ⟨rfl, rfl⟩ := List.cons.inj hrest
  rw [List.reverse_inj.1 hbefore]

theorem index_childAt (n : Node) (before : List Tree) (t : Tree) (after : List Tree) :
    (n.childAt before t after).index = 1 + Tree.sizeAll before + n.index := rfl

theorem index_lt_of_mem_children {n c : Node} (h : c ∈ n.children) : n.index < c.index := by
  obtain ⟨before, t, after, -, rfl⟩ := mem_children_iff.1 h
  rw [index_childAt]
  omega

theorem index_add_size_of_mem_children {n c : Node} (h : c ∈ n.children) :
    c.index + c.size ≤ n.index + n.size := by
  obtain ⟨before, t, after, hts, rfl⟩ := mem_children_iff.1 h
  have hsize : n.size = 1 + (Tree.sizeAll before + (t.size + Tree.sizeAll after)) := by
    rw [size, Tree.size_eq, hts, Tree.sizeAll_append, Tree.sizeAll_reverse, Tree.sizeAll]
  have hchild : (n.childAt before t after).size = t.size := rfl
  rw [index_childAt, hsize, hchild]
  omega

theorem pairwise_index_place (n : Node) (before ts : List Tree) :
    (n.place before ts).Pairwise fun a b => a.index + a.size ≤ b.index := by
  induction ts generalizing before with
  | nil => exact .nil
  | cons t ts ih =>
    rw [place, List.pairwise_cons]
    refine ⟨?_, ih (t :: before)⟩
    intro c hc
    obtain ⟨us, u, after, -, rfl⟩ := mem_place_iff.1 hc
    change (n.childAt before t ts).index + t.size ≤ _
    rw [index_childAt, index_childAt, Tree.sizeAll_append, Tree.sizeAll_reverse, Tree.sizeAll]
    omega

theorem pairwise_index_namedChildren (n : Node) :
    n.namedChildren.Pairwise fun a b => a.index + a.size ≤ b.index :=
  (pairwise_index_place n [] n.tree.children).sublist List.filter_sublist

theorem mem_children_of_mem_namedChildren {n c : Node} (h : c ∈ n.namedChildren) :
    c ∈ n.children :=
  (List.mem_filter.1 h).1

/--
`Reaches n depth m` holds if `m` is found by going down `depth` times to a named child, from `n` on.
-/
inductive Reaches (n : Node) : Nat → Node → Prop where
  | refl : Reaches n 0 n
  | child {depth : Nat} {m c : Node} : Reaches n depth m → c ∈ m.namedChildren →
      Reaches n (depth + 1) c

theorem Reaches.of_child {n c m : Node} {depth : Nat} (hc : c ∈ n.namedChildren)
    (h : Reaches c depth m) : Reaches n (depth + 1) m := by
  induction h with
  | refl => exact .child .refl hc
  | child _ hm ih => exact .child ih hm

theorem Reaches.cases_head {n m : Node} {depth : Nat} (h : Reaches n depth m) :
    (depth = 0 ∧ m = n) ∨
      ∃ d c, depth = d + 1 ∧ c ∈ n.namedChildren ∧ Reaches c d m := by
  induction h with
  | refl => exact .inl ⟨rfl, rfl⟩
  | child _ hc ih =>
    right
    rcases ih with ⟨rfl, rfl⟩ | ⟨d, k, rfl, hk, hm⟩
    · exact ⟨0, _, rfl, hc, .refl⟩
    · exact ⟨d + 1, k, rfl, hk, .child hm hc⟩

theorem Reaches.trans {n m k : Node} {d e : Nat} (h : Reaches n d m) (h' : Reaches m e k) :
    Reaches n (d + e) k := by
  induction h' with
  | refl => exact h
  | child _ hk ih => exact .child ih hk

theorem Reaches.length_path {n m : Node} {depth : Nat} (h : Reaches n depth m) :
    m.path.length = n.path.length + depth := by
  induction h with
  | refl => rfl
  | child _ hc ih =>
    obtain ⟨i, hi, -⟩ := path_of_mem_children (mem_children_of_mem_namedChildren hc)
    rw [hi, List.length_cons, ih]
    rfl

theorem Reaches.of_le {a b c : Node} {d e : Nat} (h : Reaches a d c) (h' : Reaches b e c)
    (hde : d ≤ e) : Reaches b (e - d) a := by
  -- Both ways end with the same step, since a node has one parent.
  induction h generalizing e with
  | refl => exact h'
  | child h hc ih =>
    cases h' with
    | refl => exact absurd hde (Nat.not_succ_le_zero _)
    | child h' hc' =>
      have hparent := parent?_of_mem_children (mem_children_of_mem_namedChildren hc)
      have hparent' := parent?_of_mem_children (mem_children_of_mem_namedChildren hc')
      rw [hparent] at hparent'
      obtain rfl := Option.some.inj hparent'
      rw [Nat.add_sub_add_right]
      exact ih h' (Nat.le_of_succ_le_succ hde)

theorem Reaches.eq_of_path {n m m' : Node} {d d' : Nat} (h : Reaches n d m) (h' : Reaches n d' m')
    (hpath : m.path = m'.path) : m = m' := by
  induction h generalizing d' m' with
  | refl =>
    cases h' with
    | refl => rfl
    | child h' hc' =>
      have := (Reaches.child h' hc').length_path
      rw [← hpath] at this
      omega
  | child h hc ih =>
    cases h' with
    | refl =>
      have := (Reaches.child h hc).length_path
      rw [hpath] at this
      omega
    | child h' hc' =>
      obtain ⟨i, hi, huniq⟩ := path_of_mem_children (mem_children_of_mem_namedChildren hc)
      obtain ⟨j, hj, -⟩ := path_of_mem_children (mem_children_of_mem_namedChildren hc')
      rw [hi, hj] at hpath
      obtain ⟨rfl, htail⟩ := List.cons.inj hpath
      obtain rfl := ih h' htail
      exact (huniq _ (mem_children_of_mem_namedChildren hc') hj).symm

theorem pairwise_index_children (n : Node) :
    n.children.Pairwise fun a b => a.index + a.size ≤ b.index :=
  pairwise_index_place n [] n.tree.children

/--
The node and all nodes below it, in preorder.
-/
def preorder (n : Node) : List Node :=
  n :: n.children.attach.flatMap fun ⟨c, _⟩ => preorder c
termination_by n.size
decreasing_by exact size_lt_of_mem_children ‹_›

theorem preorder_eq (n : Node) : n.preorder = n :: n.children.flatMap preorder := by
  rw [preorder]
  simp

theorem sizeInduction {P : Node → Prop} (step : ∀ n, (∀ m, m.size < n.size → P m) → P n)
    (n : Node) : P n :=
  step n fun m _ => sizeInduction step m
termination_by n.size

theorem index_of_mem_preorder {n m : Node} (h : m ∈ n.preorder) :
    n.index ≤ m.index ∧ m.index + m.size ≤ n.index + n.size := by
  induction n using sizeInduction with
  | step n ih =>
    rw [preorder_eq, List.mem_cons, List.mem_flatMap] at h
    rcases h with rfl | ⟨c, hc, hm⟩
    · exact ⟨Nat.le_refl _, Nat.le_refl _⟩
    · have hbelow := ih c (size_lt_of_mem_children hc) hm
      have hlt := index_lt_of_mem_children hc
      have hle := index_add_size_of_mem_children hc
      omega

theorem pairwise_index_preorder (n : Node) :
    n.preorder.Pairwise fun a b => a.index < b.index := by
  induction n using sizeInduction with
  | step n ih =>
    rw [preorder_eq, List.pairwise_cons, List.pairwise_flatMap]
    refine ⟨?_, ?_, ?_⟩
    · intro m hm
      obtain ⟨c, hc, hm⟩ := List.mem_flatMap.1 hm
      have hlt := index_lt_of_mem_children hc
      have hle := (index_of_mem_preorder hm).1
      omega
    · intro c hc
      exact ih c (size_lt_of_mem_children hc)
    · apply (pairwise_index_children n).imp
      intro c d hcd a ha b hb
      have ha := (index_of_mem_preorder ha).2
      have hb := (index_of_mem_preorder hb).1
      have := a.size_pos
      omega

theorem mem_preorder_self (n : Node) : n ∈ n.preorder := by
  rw [preorder_eq]
  apply List.mem_cons_self

theorem mem_preorder_of_mem_children {n c m : Node} (hc : c ∈ n.children) (hm : m ∈ c.preorder) :
    m ∈ n.preorder := by
  rw [preorder_eq, List.mem_cons, List.mem_flatMap]
  exact .inr ⟨c, hc, hm⟩

theorem mem_preorder_trans {n m d : Node} (hd : d ∈ m.preorder) (hm : m ∈ n.preorder) :
    d ∈ n.preorder := by
  induction n using sizeInduction with
  | step n ih =>
    rw [preorder_eq, List.mem_cons, List.mem_flatMap] at hm
    rcases hm with rfl | ⟨c, hc, hm⟩
    · exact hd
    · apply mem_preorder_of_mem_children hc
      exact ih c (size_lt_of_mem_children hc) hm

theorem size_le_of_mem_preorder {n m : Node} (h : m ∈ n.preorder) : m.size ≤ n.size := by
  have := index_of_mem_preorder h
  omega

end Node

namespace Extract

theorem namedSubtree_eq (n : Node) :
    namedSubtree n = n :: n.namedChildren.flatMap namedSubtree := by
  rw [namedSubtree]
  simp

theorem namedInduction {P : Node → Prop} (step : ∀ n, (∀ c ∈ n.namedChildren, P c) → P n)
    (n : Node) : P n :=
  step n fun c _ => namedInduction step c
termination_by n.size
decreasing_by exact Node.size_lt_of_mem_namedChildren ‹_›

theorem mem_namedSubtree_self (n : Node) : n ∈ namedSubtree n := by
  rw [namedSubtree_eq]
  apply List.mem_cons_self

theorem mem_namedSubtree_of_mem_namedChildren {n m c : Node} (h : m ∈ namedSubtree n)
    (hc : c ∈ m.namedChildren) : c ∈ namedSubtree n := by
  induction n using namedInduction with
  | step n ih =>
    rw [namedSubtree_eq, List.mem_cons, List.mem_flatMap] at h ⊢
    rcases h with rfl | ⟨k, hk, hm⟩
    · exact .inr ⟨c, hc, mem_namedSubtree_self c⟩
    · exact .inr ⟨k, hk, ih k hk hm⟩

theorem mem_namedSubtree_iff {n m : Node} : m ∈ namedSubtree n ↔ ∃ depth, n.Reaches depth m := by
  constructor
  · induction n using namedInduction with
    | step n ih =>
      intro h
      rw [namedSubtree_eq, List.mem_cons, List.mem_flatMap] at h
      rcases h with rfl | ⟨c, hc, hm⟩
      · exact ⟨0, .refl⟩
      · obtain ⟨depth, hdepth⟩ := ih c hc hm
        exact ⟨depth + 1, hdepth.of_child hc⟩
  · rintro ⟨depth, h⟩
    induction h with
    | refl => apply mem_namedSubtree_self
    | child _ hc ih => exact mem_namedSubtree_of_mem_namedChildren ih hc

theorem mem_namedSubtree_trans {n m k : Node} (h : k ∈ namedSubtree m) (h' : m ∈ namedSubtree n) :
    k ∈ namedSubtree n := by
  obtain ⟨d, hd⟩ := mem_namedSubtree_iff.1 h
  obtain ⟨d', hd'⟩ := mem_namedSubtree_iff.1 h'
  exact mem_namedSubtree_iff.2 ⟨d' + d, hd'.trans hd⟩

theorem mem_namedSubtree_or_mem_namedSubtree {a b c : Node} (ha : c ∈ namedSubtree a)
    (hb : c ∈ namedSubtree b) : a ∈ namedSubtree b ∨ b ∈ namedSubtree a := by
  obtain ⟨d, hd⟩ := mem_namedSubtree_iff.1 ha
  obtain ⟨e, he⟩ := mem_namedSubtree_iff.1 hb
  rcases Nat.le_total d e with hde | hed
  · exact .inl (mem_namedSubtree_iff.2 ⟨e - d, hd.of_le he hde⟩)
  · exact .inr (mem_namedSubtree_iff.2 ⟨d - e, he.of_le hd hed⟩)

theorem index_of_mem_namedSubtree {n m : Node} (h : m ∈ namedSubtree n) :
    n.index ≤ m.index ∧ m.index + m.size ≤ n.index + n.size := by
  rw [mem_namedSubtree_iff] at h
  obtain ⟨depth, h⟩ := h
  induction h with
  | refl => exact ⟨Nat.le_refl _, Nat.le_refl _⟩
  | child _ hc ih =>
    have hc := Node.mem_children_of_mem_namedChildren hc
    have hlt := Node.index_lt_of_mem_children hc
    have hle := Node.index_add_size_of_mem_children hc
    omega

/--
A relation holds along the preorder if it holds between a node and those below it, and between the
nodes below one child and the nodes below a later child.
-/
theorem pairwise_namedSubtree {R : Node → Node → Prop} {n : Node}
    (below : ∀ m ∈ namedSubtree n, ∀ c ∈ m.namedChildren, ∀ k ∈ namedSubtree c, R m k)
    (beside : ∀ m ∈ namedSubtree n, m.namedChildren.Pairwise fun c d =>
      ∀ a ∈ namedSubtree c, ∀ b ∈ namedSubtree d, R a b) :
    (namedSubtree n).Pairwise R := by
  induction n using namedInduction with
  | step n ih =>
    have hself := mem_namedSubtree_self n
    rw [namedSubtree_eq, List.pairwise_cons, List.pairwise_flatMap]
    refine ⟨?_, ?_, beside n hself⟩
    · intro k hk
      obtain ⟨c, hc, hk⟩ := List.mem_flatMap.1 hk
      exact below n hself c hc k hk
    · intro c hc
      have hsub : ∀ m ∈ namedSubtree c, m ∈ namedSubtree n := by
        intro m hm
        exact mem_namedSubtree_trans hm (mem_namedSubtree_of_mem_namedChildren hself hc)
      apply ih c hc
      · intro m hm
        exact below m (hsub m hm)
      · intro m hm
        exact beside m (hsub m hm)

theorem pairwise_index_namedSubtree (n : Node) :
    (namedSubtree n).Pairwise fun a b => a.index < b.index := by
  apply pairwise_namedSubtree
  · intro m _ c hc k hk
    have hlt := Node.index_lt_of_mem_children (Node.mem_children_of_mem_namedChildren hc)
    have hle := (index_of_mem_namedSubtree hk).1
    omega
  · intro m _
    apply (Node.pairwise_index_namedChildren m).imp
    intro c d hcd a ha b hb
    have ha := (index_of_mem_namedSubtree ha).2
    have hb := (index_of_mem_namedSubtree hb).1
    have := a.size_pos
    omega

theorem pairwise_below_or_behind (n : Node) :
    (namedSubtree n).Pairwise fun a b => b ∈ namedSubtree a ∨ a.index + a.size ≤ b.index := by
  apply pairwise_namedSubtree
  · intro m _ c hc k hk
    have hc := mem_namedSubtree_of_mem_namedChildren (mem_namedSubtree_self m) hc
    exact .inl (mem_namedSubtree_trans hk hc)
  · intro m _
    apply (Node.pairwise_index_namedChildren m).imp
    intro c d hcd a ha b hb
    have ha := (index_of_mem_namedSubtree ha).2
    have hb := (index_of_mem_namedSubtree hb).1
    omega

end Extract

end Polyglot
