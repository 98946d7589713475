import Mathlib.Data.List.Induction
import Polyglot.Extract.Linkage.Rust
import Polyglot.Proofs.Declarations.Search
import Polyglot.Proofs.Lists
import Polyglot.Proofs.Paths

/-!
This module contains use trees as they are written, and what they mean: every leaf stands for the
paths of the lists around it and its own path. The imports and exports of a declaration hold these
leaves, grouped by their paths.
-/

namespace Polyglot.Rust

/--
A use tree. Each leaf has its node. The path of a wildcard or of a list is empty if none is written.
-/
inductive UseTree where
  | plain (node : Node) (path : List String)
  | renamed (node : Node) (path : List String) (name : String)
  | wildcard (node : Node) (path : List String)
  | list (path : List String) (items : List UseTree)

/--
A leaf of a use tree with the path and the binding that it stands for.
-/
structure UseLeaf where
  node : Node
  path : List String
  binding : Binding

def UseLeaf.entry (leaf : UseLeaf) : String × Binding := (pathText leaf.path, leaf.binding)

namespace UseTree

/--
The path that is meant by `path` in a list for `outer`. There `self` means the path of the list.
-/
def target (outer path : List String) : List String :=
  if path = ["self"] ∧ outer ≠ [] then outer else outer ++ path

mutual

/--
The leaves of a use tree inside lists for the path `outer`, in the order in which they are written.
-/
def leaves (outer : List String) : UseTree → List UseLeaf
  | .plain node path =>
    let full := target outer path
    [{ node, path := full, binding := .same (full.getLastD "") }]
  | .renamed node path name =>
    let full := target outer path
    [{ node, path := full, binding := { imported := full.getLastD "", bound := name } }]
  | .wildcard node path => [{ node, path := outer ++ path, binding := .wildcard "*" }]
  | .list path items => leavesAll (outer ++ path) items

def leavesAll (outer : List String) : List UseTree → List UseLeaf
  | [] => []
  | item :: items => item.leaves outer ++ leavesAll outer items

end

def pathKinds : List String :=
  ["identifier", "scoped_identifier", "self", "crate", "super", "metavariable"]

/--
The node is the syntax tree of the use tree. Comments may stand between the items of a list.
-/
inductive IsAt : UseTree → Node → Prop
  | plain {n : Node} {path : List String} (hkind : n.kind ∈ pathKinds)
    (hpath : PathSpelled n.text.toList path) : IsAt (.plain n path) n
  | renamed {n p : Node} {path : List String} {name : String} (hkind : n.kind = "use_as_clause")
    (hfield : n.field? "path" = some p) (hpath : PathSpelled p.text.toList path)
    (hname : n.fieldText? "alias" = some name) : IsAt (.renamed n path name) n
  | wildcard {n p : Node} {path : List String} (hkind : n.kind = "use_wildcard")
    (hfirst : (n.namedChildrenExcept commentKinds).head? = some p)
    (hpath : PathSpelled p.text.toList path) : IsAt (.wildcard n path) n
  | bareWildcard {n : Node} (hkind : n.kind = "use_wildcard")
    (hfirst : (n.namedChildrenExcept commentKinds).head? = none) : IsAt (.wildcard n []) n
  | list {n : Node} {items : List UseTree} (hkind : n.kind = "use_list")
    (hitems : List.Forall₂ IsAt items (n.namedChildrenExcept commentKinds)) :
    IsAt (.list [] items) n
  | scopedList {n p l : Node} {path : List String} {items : List UseTree}
    (hkind : n.kind = "scoped_use_list") (hfield : n.field? "path" = some p)
    (hpath : PathSpelled p.text.toList path) (hlist : n.field? "list" = some l)
    (hitems : IsAt (.list [] items) l) : IsAt (.list path items) n
  | rootList {n l : Node} {items : List UseTree} (hkind : n.kind = "scoped_use_list")
    (hfield : n.field? "path" = none) (hlist : n.field? "list" = some l)
    (hitems : IsAt (.list [] items) l) : IsAt (.list [] items) n

/--
The items of a list are below its node, so what holds of a list may rest on its items.
-/
theorem IsAt.induction {motive : (t : UseTree) → (n : Node) → t.IsAt n → Prop}
    (plain : ∀ {n : Node} {path : List String} hkind hpath,
      motive (.plain n path) n (.plain hkind hpath))
    (renamed : ∀ {n p : Node} {path : List String} {name : String} hkind
      (hfield : n.field? "path" = some p) hpath hname,
      motive (.renamed n path name) n (.renamed hkind hfield hpath hname))
    (wildcard : ∀ {n p : Node} {path : List String} hkind
      (hfirst : (n.namedChildrenExcept commentKinds).head? = some p) hpath,
      motive (.wildcard n path) n (.wildcard hkind hfirst hpath))
    (bareWildcard : ∀ {n : Node} hkind hfirst,
      motive (.wildcard n []) n (.bareWildcard hkind hfirst))
    (list : ∀ {n : Node} {items : List UseTree} hkind hitems,
      List.Forall₂ (fun item c => ∃ h, motive item c h) items
        (n.namedChildrenExcept commentKinds) →
      motive (.list [] items) n (.list hkind hitems))
    (scopedList : ∀ {n p l : Node} {path : List String} {items : List UseTree} hkind
      (hfield : n.field? "path" = some p) hpath (hlist : n.field? "list" = some l) hitems,
      motive (.list [] items) l hitems →
      motive (.list path items) n (.scopedList hkind hfield hpath hlist hitems))
    (rootList : ∀ {n l : Node} {items : List UseTree} hkind hfield
      (hlist : n.field? "list" = some l) hitems, motive (.list [] items) l hitems →
      motive (.list [] items) n (.rootList hkind hfield hlist hitems))
    {t : UseTree} {n : Node} (h : t.IsAt n) : motive t n h := by
  induction n using Node.sizeInduction generalizing t with
  | step n ih =>
    cases h with
    | plain hkind hpath => exact plain hkind hpath
    | renamed hkind hfield hpath hname => exact renamed hkind hfield hpath hname
    | wildcard hkind hfirst hpath => exact wildcard hkind hfirst hpath
    | bareWildcard hkind hfirst => exact bareWildcard hkind hfirst
    | list hkind hitems =>
      apply list hkind hitems
      rw [List.forall₂_iff_zip]
      refine ⟨hitems.length_eq, fun hmem => ⟨List.forall₂_zip hitems hmem, ih _ ?_ _⟩⟩
      exact Node.size_lt_of_mem_namedChildren
        (List.mem_of_mem_filter (List.of_mem_zip hmem).2)
    | scopedList hkind hfield hpath hlist hitems =>
      exact scopedList hkind hfield hpath hlist hitems (ih _ (Node.size_lt_of_field hlist) hitems)
    | rootList hkind hfield hlist hitems =>
      exact rootList hkind hfield hlist hitems (ih _ (Node.size_lt_of_field hlist) hitems)

theorem leavesAll_eq (outer : List String) (items : List UseTree) :
    leavesAll outer items = items.flatMap (leaves outer) := by
  induction items with
  | nil => rfl
  | cons item items ih => rw [leavesAll, List.flatMap_cons, ih]

theorem target_ne_nil (outer : List String) {path : List String} (h : path ≠ []) :
    target outer path ≠ [] := by
  unfold target
  split
  case isTrue hlist => exact hlist.2
  case isFalse => exact List.append_ne_nil_of_right_ne_nil _ h

theorem endsInName_target {outer path : List String} (houter : EndsInName outer)
    (hpath : EndsInName path) : EndsInName (target outer path) := by
  unfold target
  split
  case isTrue => exact houter
  case isFalse => exact houter.append hpath

end UseTree

/-! Leaves -/

section Stack

variable (leaves : List (String × Binding))

theorem flattenUses_append_left (front : List (String × Binding))
    (pending : List (Node × String)) :
    flattenUses (front ++ leaves) pending = front ++ flattenUses leaves pending := by
  fun_induction flattenUses leaves pending with
  | case1 leaves => rw [flattenUses]
  | case2 leaves n outer pending ih => rw [flattenUses, List.append_assoc, ih]

/--
What lies below on the stack waits until everything above it is flattened.
-/
theorem flattenUses_append (upper lower : List (Node × String)) :
    flattenUses leaves (upper ++ lower) = flattenUses (flattenUses leaves upper) lower := by
  fun_induction flattenUses leaves upper with
  | case1 leaves => rfl
  | case2 leaves n outer upper ih => rw [List.cons_append, flattenUses, ← List.append_assoc, ih]

/--
The stack is flattened entry by entry, each with the path around it.
-/
theorem flattenUses_eq (pending : List (Node × String)) :
    flattenUses leaves pending = leaves ++ pending.flatMap fun e => useLeaves e.2 e.1 := by
  induction pending generalizing leaves with
  | nil => rw [flattenUses, List.flatMap_nil, List.append_nil]
  | cons e pending ih =>
    have hfirst : flattenUses leaves [e] = leaves ++ useLeaves e.2 e.1 := by
      rw [useLeaves, ← flattenUses_append_left, List.append_nil]
    rw [← List.singleton_append, flattenUses_append, hfirst, ih, List.append_assoc,
      List.singleton_append, List.flatMap_cons]

end Stack

/--
The loop over the stack is a recursion over the use tree: a node gives its own leaves and those of
the nodes inside it.
-/
theorem useLeaves_eq_recursion (outer : String) (n : Node) :
    useLeaves outer n =
      (useStep n outer).1 ++ (useStep n outer).2.flatMap fun e => useLeaves e.2 e.1 := by
  rw [useLeaves, flattenUses, List.nil_append, List.append_nil, flattenUses_eq]

section Kinds

variable (outer : String) {n : Node}

theorem useLeaves_path (h : n.kind ∈ UseTree.pathKinds) :
    useLeaves outer n =
      [((usePath outer n.text).1, .same (usePath outer n.text).2)] := by
  rw [useLeaves_eq_recursion, useStep]
  simp only [UseTree.pathKinds, List.mem_cons, List.not_mem_nil, or_false] at h
  rcases h with h | h | h | h | h | h
  all_goals
    rw [h]
    rfl

theorem useLeaves_renamed (h : n.kind = "use_as_clause") {path : String}
    (hpath : n.fieldText? "path" = some path) :
    useLeaves outer n =
      [((usePath outer path).1,
        { imported := (usePath outer path).2,
          bound := (n.fieldText? "alias").getD (usePath outer path).2 })] := by
  rw [useLeaves_eq_recursion, useStep, h]
  simp only [hpath]
  rfl

theorem useLeaves_wildcard (h : n.kind = "use_wildcard") :
    useLeaves outer n =
      [(joinPath outer
        ((n.namedChildrenExcept commentKinds).head?.elim "" (Text.strip ·.text)),
        .wildcard "*")] := by
  rw [useLeaves_eq_recursion, useStep, h]
  rfl

theorem useLeaves_scopedList (h : n.kind = "scoped_use_list") {l : Node}
    (hlist : n.field? "list" = some l) :
    useLeaves outer n =
      useLeaves (joinPath outer ((n.fieldText? "path").elim "" Text.strip)) l := by
  rw [useLeaves_eq_recursion, useStep, h]
  simp only [hlist, Option.toList_some, List.map_singleton, List.flatMap_singleton, List.nil_append]

theorem useLeaves_comment (h : commentKinds.contains n.kind) : useLeaves outer n = [] := by
  rw [useLeaves_eq_recursion, useStep]
  simp only [commentKinds, List.contains_cons, List.contains_nil, Bool.or_false, Bool.or_eq_true,
    beq_iff_eq] at h
  rcases h with h | h
  all_goals
    rw [h]
    rfl

theorem useLeaves_list (h : n.kind = "use_list") :
    useLeaves outer n = (n.namedChildrenExcept commentKinds).flatMap (useLeaves outer) := by
  have hall : useLeaves outer n = n.namedChildren.flatMap (useLeaves outer) := by
    rw [useLeaves_eq_recursion, useStep, h]
    simp only [List.flatMap_map, List.nil_append]
  rw [hall, Node.namedChildrenExcept, flatMap_filter]
  apply List.flatMap_congr
  intro c _
  split
  case isTrue => rfl
  case isFalse hcomment =>
    apply useLeaves_comment
    simpa using hcomment

end Kinds

section Leaves

variable {outer : List String} (houter : EndsInName outer)

include houter

theorem usePath_eq {text : String} {path : List String} (h : PathSpelled text.toList path) :
    usePath (pathText outer) text =
      (pathText (UseTree.target outer path), (UseTree.target outer path).getLastD "") := by
  have hself : pathText path = "self" ↔ path = ["self"] := pathText_eq_iff rfl
  have hempty : pathText outer = "" ↔ outer = [] := pathText_eq_empty houter
  have hfull : (if pathText path = "self" ∧ pathText outer ≠ "" then pathText outer
      else joinPath (pathText outer) (pathText path)) = pathText (UseTree.target outer path) := by
    rw [joinPath_pathText houter h.endsInName, UseTree.target, apply_ite pathText]
    simp only [hself, hempty, ne_eq]
  unfold usePath
  rw [strip_of_spelled h]
  simp only [hfull]
  rw [lastSegment_of_endsInName (UseTree.endsInName_target houter h.endsInName)
    (UseTree.target_ne_nil outer h.ne_nil)]

end Leaves

/--
The leaves that are found in a syntax tree are those of the use tree.
-/
theorem useLeaves_eq {t : UseTree} {n : Node} (h : t.IsAt n) {outer : List String}
    (houter : EndsInName outer) :
    useLeaves (pathText outer) n = (t.leaves outer).map UseLeaf.entry := by
  induction h using UseTree.IsAt.induction generalizing outer with
  | plain hkind hpath =>
    rw [useLeaves_path _ hkind, usePath_eq houter hpath]
    rfl
  | renamed hkind hfield hpath hname =>
    rw [useLeaves_renamed _ hkind (by rw [Node.fieldText?, hfield]; rfl), hname,
      usePath_eq houter hpath]
    rfl
  | wildcard hkind hfirst hpath =>
    rw [useLeaves_wildcard _ hkind, hfirst, Option.elim_some, strip_of_spelled hpath,
      joinPath_pathText houter hpath.endsInName]
    rfl
  | bareWildcard hkind hfirst =>
    rw [useLeaves_wildcard _ hkind, hfirst, Option.elim_none, ← pathText_nil,
      joinPath_pathText houter .nil]
    rfl
  | list hkind hat hitems =>
    rw [useLeaves_list _ hkind, UseTree.leaves, List.append_nil, UseTree.leavesAll_eq,
      List.map_flatMap]
    clear hat
    generalize Node.namedChildrenExcept _ _ = children at hitems
    induction hitems with
    | nil => rfl
    | cons hitem _ ih =>
      obtain ⟨-, hitem⟩ := hitem
      rw [List.flatMap_cons, List.flatMap_cons, hitem houter, ih]
  | scopedList hkind hfield hpath hlist _ ih =>
    rw [useLeaves_scopedList _ hkind hlist, Node.fieldText?, hfield, Option.map_some,
      Option.elim_some, strip_of_spelled hpath, joinPath_pathText houter hpath.endsInName,
      ih (houter.append hpath.endsInName), UseTree.leaves, UseTree.leaves, List.append_nil]
  | rootList hkind hfield hlist _ ih =>
    rw [useLeaves_scopedList _ hkind hlist, Node.fieldText?, hfield, Option.map_none,
      Option.elim_none, ← pathText_nil, joinPath_pathText houter .nil, List.append_nil, ih houter]

/-! Nodes -/

/--
The node `m` is reached from `n` by going into lists only, and is not a list or a comment itself.
-/
inductive IsUseLeaf : Node → Node → Prop
  | here {n : Node} (hkind : n.kind ∉ "use_list" :: "scoped_use_list" :: commentKinds) :
    IsUseLeaf n n
  | item {n c m : Node} (hkind : n.kind = "use_list") (hc : c ∈ n.namedChildren)
    (h : IsUseLeaf c m) : IsUseLeaf n m
  | list {n l m : Node} (hkind : n.kind = "scoped_use_list") (hlist : n.field? "list" = some l)
    (h : IsUseLeaf l m) : IsUseLeaf n m

namespace IsUseLeaf

variable {n m : Node}

theorem mem_preorder (h : IsUseLeaf n m) : m ∈ n.preorder := by
  induction h with
  | here => exact Node.mem_preorder_self _
  | item _ hc _ ih =>
    exact Node.mem_preorder_of_mem_children (Node.mem_children_of_mem_namedChildren hc) ih
  | list _ hlist _ ih =>
    exact Node.mem_preorder_of_mem_children (List.mem_of_find?_eq_some hlist) ih

theorem iff_eq (hkind : n.kind ∉ "use_list" :: "scoped_use_list" :: commentKinds) :
    IsUseLeaf n m ↔ m = n := by
  constructor
  · intro h
    cases h with
    | here => rfl
    | item hlist => simp [hlist] at hkind
    | list hlist => simp [hlist] at hkind
  · rintro rfl
    exact .here hkind

theorem iff_item (hkind : n.kind = "use_list") :
    IsUseLeaf n m ↔ ∃ c ∈ n.namedChildrenExcept commentKinds, IsUseLeaf c m := by
  constructor
  · intro h
    cases h with
    | here hleaf => simp [hkind] at hleaf
    | item _ hc h =>
      refine ⟨_, List.mem_filter.2 ⟨hc, ?_⟩, h⟩
      -- A comment has no leaves.
      cases h with
      | here hleaf =>
        simp only [List.mem_cons, not_or] at hleaf
        simpa using hleaf.2.2
      | item hkind => simp [hkind, commentKinds]
      | list hkind => simp [hkind, commentKinds]
    | list hlist =>
      simp [hkind] at hlist
  · rintro ⟨c, hc, h⟩
    exact .item hkind (List.mem_of_mem_filter hc) h

theorem iff_list {l : Node} (hkind : n.kind = "scoped_use_list")
    (hlist : n.field? "list" = some l) : IsUseLeaf n m ↔ IsUseLeaf l m := by
  constructor
  · intro h
    cases h with
    | here hleaf => simp [hkind] at hleaf
    | item hkind' =>
      simp [hkind] at hkind'
    | list _ hlist' h =>
      rw [hlist] at hlist'
      cases hlist'
      exact h
  · exact .list hkind hlist

end IsUseLeaf

section Nodes

variable (outer : List String)

theorem not_list_of_mem_pathKinds {n : Node} (h : n.kind ∈ UseTree.pathKinds) :
    n.kind ∉ "use_list" :: "scoped_use_list" :: commentKinds := by
  have hdisjoint : ∀ kind ∈ UseTree.pathKinds,
      kind ∉ "use_list" :: "scoped_use_list" :: commentKinds := by decide
  exact hdisjoint _ h

theorem mem_leavesAll_iff {items : List UseTree} {children : List Node} {m : Node}
    (h : List.Forall₂ (fun item c =>
      m ∈ (item.leaves outer).map UseLeaf.node ↔ IsUseLeaf c m) items children) :
    m ∈ (UseTree.leavesAll outer items).map UseLeaf.node ↔ ∃ c ∈ children, IsUseLeaf c m := by
  induction h with
  | nil => simp [UseTree.leavesAll]
  | cons hitem _ ih =>
    rw [UseTree.leavesAll, List.map_append, List.mem_append, hitem, ih]
    simp

/--
The leaves of a use tree are at the nodes that are leaves of the syntax tree.
-/
theorem mem_leaves_iff {t : UseTree} {n m : Node} (h : t.IsAt n) :
    m ∈ (t.leaves outer).map UseLeaf.node ↔ IsUseLeaf n m := by
  induction h using UseTree.IsAt.induction generalizing outer with
  | plain hkind _ =>
    rw [IsUseLeaf.iff_eq (not_list_of_mem_pathKinds hkind)]
    exact List.mem_singleton
  | renamed hkind _ _ _ =>
    rw [IsUseLeaf.iff_eq (by rw [hkind]; decide)]
    exact List.mem_singleton
  | wildcard hkind _ _ =>
    rw [IsUseLeaf.iff_eq (by rw [hkind]; decide)]
    exact List.mem_singleton
  | bareWildcard hkind _ =>
    rw [IsUseLeaf.iff_eq (by rw [hkind]; decide)]
    exact List.mem_singleton
  | list hkind _ hitems =>
    rw [IsUseLeaf.iff_item hkind, UseTree.leaves]
    apply mem_leavesAll_iff
    exact hitems.imp fun _ _ ⟨_, hitem⟩ => hitem _
  | scopedList hkind _ _ hlist _ ih =>
    rw [IsUseLeaf.iff_list hkind hlist, ← ih, UseTree.leaves, UseTree.leaves, List.append_nil]
  | rootList hkind _ hlist _ ih => rw [IsUseLeaf.iff_list hkind hlist, ih]

/--
The leaves are in the order of the source.
-/
theorem pairwise_before_leaves {t : UseTree} {n : Node} (h : t.IsAt n) :
    ((t.leaves outer).map UseLeaf.node).Pairwise Node.Before := by
  induction h using UseTree.IsAt.induction generalizing outer with
  | plain => exact List.pairwise_singleton _ _
  | renamed => exact List.pairwise_singleton _ _
  | wildcard => exact List.pairwise_singleton _ _
  | bareWildcard => exact List.pairwise_singleton _ _
  | @list n _ _ hat hitems =>
    have hchildren : (n.namedChildrenExcept commentKinds).Pairwise Node.Before :=
      n.pairwise_index_namedChildren.sublist List.filter_sublist
    rw [UseTree.leaves]
    clear hat
    generalize Node.namedChildrenExcept _ _ = children at hitems hchildren
    induction hitems with
    | nil => exact .nil
    | cons hitem hitems ih =>
      obtain ⟨hat, hitem⟩ := hitem
      rw [List.pairwise_cons] at hchildren
      rw [UseTree.leavesAll, List.map_append, List.pairwise_append]
      refine ⟨hitem _, ih hchildren.2, ?_⟩
      intro a ha b hb
      rw [mem_leaves_iff _ hat] at ha
      rw [mem_leavesAll_iff _ (hitems.imp fun _ _ ⟨hat, _⟩ => mem_leaves_iff _ hat)] at hb
      obtain ⟨c, hc, hb⟩ := hb
      exact (hchildren.1 c hc).of_mem ha.mem_preorder hb.mem_preorder
  | scopedList _ _ _ _ _ ih =>
    rw [UseTree.leaves, ← List.append_nil (outer ++ _), ← UseTree.leaves]
    exact ih _
  | rootList _ _ _ _ ih => exact ih _

end Nodes

/-! Groups -/

/--
The sources of the leaves of a use tree, in the order in which they first occur.
-/
def sourcesOf (leaves : List (String × Binding)) : List String := (leaves.map Prod.fst).eraseDups

def bindingsOf (leaves : List (String × Binding)) (source : String) : List Binding :=
  (leaves.filter (·.1 == source)).map Prod.snd

section Groups

variable (leaves : List (String × Binding)) (leaf : String × Binding)

theorem nodup_sourcesOf : (sourcesOf leaves).Nodup := nodup_eraseDups _

theorem mem_sourcesOf {source : String} :
    source ∈ sourcesOf leaves ↔ source ∈ leaves.map Prod.fst :=
  List.mem_eraseDups

theorem bindingsOf_append (source : String) :
    bindingsOf (leaves ++ [leaf]) source =
      bindingsOf leaves source ++ if leaf.1 = source then [leaf.2] else [] := by
  unfold bindingsOf
  rw [List.filter_append, List.map_append]
  by_cases h : leaf.1 = source
  · simp [h]
  · simp [h]

theorem bindingsOf_of_notMem (h : leaf.1 ∉ leaves.map Prod.fst) :
    bindingsOf leaves leaf.1 = [] := by
  unfold bindingsOf
  rw [List.map_eq_nil_iff, List.filter_eq_nil_iff]
  intro other hother heq
  rw [beq_iff_eq] at heq
  exact h (heq ▸ List.mem_map_of_mem hother)

theorem sourcesOf_append :
    sourcesOf (leaves ++ [leaf]) =
      sourcesOf leaves ++ if leaf.1 ∈ leaves.map Prod.fst then [] else [leaf.1] := by
  unfold sourcesOf
  rw [List.map_append, List.map_singleton, eraseDups_append_singleton]

/--
Adding a leaf to groups with distinct sources puts its binding last in the group of its source.
-/
theorem addBinding_map {sources : List String} (hsources : sources.Nodup)
    (bindings : String → List Binding) (hnew : leaf.1 ∉ sources → bindings leaf.1 = []) :
    addBinding (sources.map fun s => (s, bindings s)) leaf =
      (sources ++ if leaf.1 ∈ sources then [] else [leaf.1]).map fun s =>
        (s, bindings s ++ if leaf.1 = s then [leaf.2] else []) := by
  induction sources with
  | nil => simp [addBinding, hnew]
  | cons s sources ih =>
    rw [List.nodup_cons] at hsources
    rw [List.map_cons, addBinding]
    by_cases hs : s = leaf.1
    · have hrest : ∀ t ∈ sources, leaf.1 ≠ t := by
        rintro t ht rfl
        exact hsources.1 (hs ▸ ht)
      subst hs
      simp only [↓reduceIte, List.mem_cons, true_or, List.append_nil, List.map_cons,
        List.cons.injEq, true_and]
      apply List.map_congr_left
      intro t ht
      rw [if_neg (hrest t ht), List.append_nil]
    · have hmem : leaf.1 ∈ s :: sources ↔ leaf.1 ∈ sources := by
        rw [List.mem_cons, or_iff_right (Ne.symm hs)]
      rw [if_neg hs, ih hsources.2 fun h => hnew (mt hmem.1 h)]
      simp only [hmem, List.cons_append, List.map_cons, if_neg (Ne.symm hs), List.append_nil]

/--
The groups have the sources of the leaves, and each holds the bindings of its source.
-/
theorem foldl_addBinding :
    leaves.foldl addBinding [] = (sourcesOf leaves).map fun s => (s, bindingsOf leaves s) := by
  induction leaves using List.reverseRecOn with
  | nil => rfl
  | append_singleton leaves leaf ih =>
    rw [List.foldl_append, ih, List.foldl_cons, List.foldl_nil,
      addBinding_map leaf (nodup_sourcesOf leaves)]
    · simp only [sourcesOf_append, bindingsOf_append, mem_sourcesOf]
    · intro h
      rw [mem_sourcesOf] at h
      exact bindingsOf_of_notMem leaves leaf h

end Groups

/--
The leaves that are held by a group.
-/
def expand (group : String × List Binding) : List (String × Binding) := group.2.map (group.1, ·)

theorem flatMap_expand_addBinding (groups : List (String × List Binding))
    (leaf : String × Binding) :
    ((addBinding groups leaf).flatMap expand).Perm (groups.flatMap expand ++ [leaf]) := by
  induction groups with
  | nil => exact .rfl
  | cons group groups ih =>
    rw [addBinding, List.flatMap_cons, List.append_assoc]
    split
    case isTrue hs =>
      have hgroup : expand (group.1, group.2 ++ [leaf.2]) = expand group ++ [leaf] := by
        unfold expand
        rw [List.map_append, hs]
        rfl
      rw [List.flatMap_cons, hgroup, List.append_assoc]
      exact List.perm_append_comm.append_left _
    case isFalse =>
      rw [List.flatMap_cons]
      exact ih.append_left _

/--
Every leaf is held by the groups once.
-/
theorem flatMap_expand_foldl (groups : List (String × List Binding))
    (leaves : List (String × Binding)) :
    ((leaves.foldl addBinding groups).flatMap expand).Perm (groups.flatMap expand ++ leaves) := by
  induction leaves generalizing groups with
  | nil => rw [List.append_nil, List.foldl_nil]
  | cons leaf leaves ih =>
    rw [List.foldl_cons, List.append_cons]
    exact (ih _).trans ((flatMap_expand_addBinding groups leaf).append_right _)

/-! Declarations -/

/--
The sources and bindings of the leaves of a use tree.
-/
def UseTree.entries (t : UseTree) : List (String × Binding) := (t.leaves []).map UseLeaf.entry

/--
A use declaration has one leaf for each leaf of its syntax tree, in the order of the source. Its
imports, and its exports if it is public, hold what the leaves mean, grouped by source.
-/
theorem use_declaration_flattens {n arg : Node} {t : UseTree} (hkind : n.kind = "use_declaration")
    (harg : n.field? "argument" = some arg) (h : t.IsAt arg) :
    useLeaves "" arg = t.entries ∧
    (∀ m, m ∈ (t.leaves []).map UseLeaf.node ↔ IsUseLeaf arg m) ∧
    ((t.leaves []).map UseLeaf.node).Pairwise Node.Before ∧
    importsOf n = (sourcesOf t.entries).map (fun source =>
      { source, bindings := bindingsOf t.entries source, line := n.line, isTypeOnly := false }) ∧
    exportsOf n = (if isPub n then (sourcesOf t.entries).map (fun source =>
      { source := some source, bindings := bindingsOf t.entries source, line := n.line,
        isTypeOnly := false }) else []) ∧
    (sourcesOf t.entries).Nodup ∧
    ((importsOf n).flatMap fun i => i.bindings.map (i.source, ·)).Perm t.entries := by
  have hleaves : useLeaves "" arg = t.entries := useLeaves_eq h .nil
  have hgroups : useGroups n = t.entries.foldl addBinding [] := by
    rw [useGroups, harg, Option.elim_some, hleaves]
  have himports : importsOf n = (useGroups n).map fun group =>
      { source := group.1, bindings := group.2, line := n.line, isTypeOnly := false } := by
    unfold importsOf
    simp only [hkind]
  refine ⟨hleaves, fun m => mem_leaves_iff [] h, pairwise_before_leaves [] h, ?_, ?_,
    nodup_sourcesOf _, ?_⟩
  · rw [himports, hgroups, foldl_addBinding, List.map_map]
    rfl
  · unfold exportsOf
    rw [hkind, hgroups, foldl_addBinding]
    by_cases hpub : isPub n
    · simp [hpub, Function.comp_def]
    · simp [hpub]
  · rw [himports, hgroups, List.flatMap_map]
    exact flatMap_expand_foldl [] t.entries

def reexports : Tree :=
  .node ⟨"source_file", true, false, none, 0, 56⟩ [
    .node ⟨"use_declaration", true, false, none, 0, 56⟩ [
      .node ⟨"visibility_modifier", true, false, none, 0, 3⟩ [
        .node ⟨"pub", false, false, none, 0, 3⟩ []],
      .node ⟨"use", false, false, none, 4, 7⟩ [],
      .node ⟨"scoped_use_list", true, false, some "argument", 8, 55⟩ [
        .node ⟨"identifier", true, false, some "path", 8, 9⟩ [],
        .node ⟨"::", false, false, none, 9, 11⟩ [],
        .node ⟨"use_list", true, false, some "list", 11, 55⟩ [
          .node ⟨"\x7b", false, false, none, 11, 12⟩ [],
          .node ⟨"identifier", true, false, none, 12, 13⟩ [],
          .node ⟨",", false, false, none, 13, 14⟩ [],
          .node ⟨"block_comment", true, false, none, 15, 22⟩ [],
          .node ⟨"scoped_use_list", true, false, none, 23, 40⟩ [
            .node ⟨"identifier", true, false, some "path", 23, 24⟩ [],
            .node ⟨"::", false, false, none, 24, 26⟩ [],
            .node ⟨"use_list", true, false, some "list", 26, 40⟩ [
              .node ⟨"\x7b", false, false, none, 26, 27⟩ [],
              .node ⟨"self", true, false, none, 27, 31⟩ [],
              .node ⟨",", false, false, none, 31, 32⟩ [],
              .node ⟨"use_as_clause", true, false, none, 33, 39⟩ [
                .node ⟨"identifier", true, false, some "path", 33, 34⟩ [],
                .node ⟨"as", false, false, none, 35, 37⟩ [],
                .node ⟨"identifier", true, false, some "alias", 38, 39⟩ []],
              .node ⟨"\x7d", false, false, none, 39, 40⟩ []]],
          .node ⟨",", false, false, none, 40, 41⟩ [],
          .node ⟨"use_wildcard", true, false, none, 42, 46⟩ [
            .node ⟨"identifier", true, false, none, 42, 43⟩ [],
            .node ⟨"::", false, false, none, 43, 45⟩ [],
            .node ⟨"*", false, false, none, 45, 46⟩ []],
          .node ⟨",", false, false, none, 46, 47⟩ [],
          .node ⟨"use_as_clause", true, false, none, 48, 54⟩ [
            .node ⟨"identifier", true, false, some "path", 48, 49⟩ [],
            .node ⟨"as", false, false, none, 50, 52⟩ [],
            .node ⟨"identifier", true, false, some "alias", 53, 54⟩ []],
          .node ⟨"\x7d", false, false, none, 54, 55⟩ []]],
      .node ⟨";", false, false, none, 55, 56⟩ []]]

def reexportsRoot : Node :=
  .root (.ofString "pub use a::\x7bb, /* c */ d::\x7bself, e as f\x7d, d::*, b as g\x7d;") reexports

def reexportsAt (index : Nat) : Node := (reexportsRoot.descendant? index).getD reexportsRoot

def reexportsTree : UseTree :=
  .list ["a"] [
    .plain (reexportsAt 10) ["b"],
    .list ["d"] [.plain (reexportsAt 18) ["self"], .renamed (reexportsAt 20) ["e"] "f"],
    .wildcard (reexportsAt 26) ["d"],
    .renamed (reexportsAt 31) ["b"] "g"]

theorem isAt_reexportsTree : reexportsTree.IsAt (reexportsAt 5) := by
  have hname {n : Node} {s : String} (htext : n.text = s) (hs : isSegment s) :
      PathSpelled n.text.toList [s] := by
    rw [htext, ← List.append_nil s.toList]
    exact .relative (@Spelled.last s [] [] hs rfl rfl)
  have hlist : (reexportsAt 8).namedChildrenExcept commentKinds =
      [reexportsAt 10, reexportsAt 13, reexportsAt 26, reexportsAt 31] := by
    with_unfolding_all rfl
  have hinner : (reexportsAt 16).namedChildrenExcept commentKinds =
      [reexportsAt 18, reexportsAt 20] := by
    with_unfolding_all rfl
  have hd : UseTree.IsAt
      (.list [] [.plain (reexportsAt 18) ["self"], .renamed (reexportsAt 20) ["e"] "f"])
      (reexportsAt 16) := by
    refine .list (by decide +kernel) (hinner ▸ .cons (.plain ?_ ?_) (.cons ?_ .nil))
    · decide +kernel
    · exact hname (by decide +kernel) (by decide +kernel)
    · refine .renamed (p := reexportsAt 21) (by decide +kernel) ?_ ?_ (by decide +kernel)
      · with_unfolding_all rfl
      · exact hname (by decide +kernel) (by decide +kernel)
  refine .scopedList (p := reexportsAt 6) (l := reexportsAt 8) (by decide +kernel)
    (by with_unfolding_all rfl) (hname (by decide +kernel) (by decide +kernel))
    (by with_unfolding_all rfl)
    (.list (by decide +kernel) (hlist ▸ .cons ?_ (.cons ?_ (.cons ?_ (.cons ?_ .nil)))))
  · exact .plain (by decide +kernel) (hname (by decide +kernel) (by decide +kernel))
  · exact .scopedList (p := reexportsAt 14) (l := reexportsAt 16) (by decide +kernel)
      (by with_unfolding_all rfl) (hname (by decide +kernel) (by decide +kernel))
      (by with_unfolding_all rfl) hd
  · exact .wildcard (p := reexportsAt 27) (by decide +kernel) (by with_unfolding_all rfl)
      (hname (by decide +kernel) (by decide +kernel))
  · exact .renamed (p := reexportsAt 32) (by decide +kernel) (by with_unfolding_all rfl)
      (hname (by decide +kernel) (by decide +kernel)) (by decide +kernel)

theorem reexports_flatten :
    useLeaves "" (reexportsAt 5) = [("a::b", .same "b"), ("a::d", .same "d"),
      ("a::d::e", { imported := "e", bound := "f" }), ("a::d", .wildcard "*"),
      ("a::b", { imported := "b", bound := "g" })] ∧
    (reexportsTree.leaves []).map UseLeaf.node = [10, 18, 20, 26, 31].map reexportsAt ∧
    importsOf (reexportsAt 1) =
      [⟨"a::b", [.same "b", { imported := "b", bound := "g" }], 1, false⟩,
        ⟨"a::d", [.same "d", .wildcard "*"], 1, false⟩,
        ⟨"a::d::e", [{ imported := "e", bound := "f" }], 1, false⟩] ∧
    (exportsOf (reexportsAt 1)).map (·.source) = [some "a::b", some "a::d", some "a::d::e"] := by
  obtain ⟨hleaves, -, -, himports, hexports, -, -⟩ := use_declaration_flattens (n := reexportsAt 1)
    (by decide +kernel) (by with_unfolding_all rfl) isAt_reexportsTree
  have hentries : reexportsTree.entries = [("a::b", .same "b"), ("a::d", .same "d"),
      ("a::d::e", { imported := "e", bound := "f" }), ("a::d", .wildcard "*"),
      ("a::b", { imported := "b", bound := "g" })] := by decide +kernel
  rw [hleaves, himports, hexports, hentries]
  exact ⟨rfl, rfl, by decide +kernel, by decide +kernel⟩

end Polyglot.Rust
