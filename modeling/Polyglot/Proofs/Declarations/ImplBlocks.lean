import Mathlib.Data.List.Induction
import Polyglot.Proofs.Declarations.Records
import Polyglot.Proofs.Declarations.Search.Rust
import Polyglot.Proofs.Lists
import Polyglot.Proofs.TypePaths

/-!
This module contains which types the impl blocks of a file join. A block joins types at one path
only. If its type is declared in the file this is the path of that type, in whatever way the block
spells it. A type has the methods and traits of the blocks that join it, in the order in which these
blocks end.
-/

namespace Polyglot

/--
Whether `a` ends before `b` does: it lies before `b` or inside of it.
-/
def Node.EndsBefore (a b : Node) : Prop := a.Before b ∨ a ∈ b.preorder ∧ a.size < b.size

theorem Node.not_endsBefore_self (n : Node) : ¬n.EndsBefore n := by
  rintro (h | ⟨-, h⟩)
  · exact n.not_before_self h
  · exact Nat.lt_irrefl _ h

namespace Rust

open Extract Search

/-! Modules -/

/--
The node stands directly in the module at `path`, from the given nodes of a module on.
-/
inductive InModule : (nodes : List Node) → (path : List String) → Node → Prop
  | here {nodes : List Node} {n : Node} (hn : n ∈ nodes) : InModule nodes [] n
  | inside {nodes : List Node} {m n : Node} {name : String} {path : List String} (hm : m ∈ nodes)
    (hkind : m.kind = "mod_item") (hname : m.fieldText? "name" = some name)
    (hn : InModule (bodyNodes m) path n) : InModule nodes (name :: path) n

/--
Whether the nodes of the module at `path` are looked at.
-/
def Within (limits : Limits) (path : List String) : Prop :=
  path.length ≤ limits.maxScopeDepth ∧ path.length ≤ limits.maxTreeDepth

section Plan

variable (scope : Scope) (scopes : List String) {n : Node} (depth : Nat)

theorem plan_of_module (hkind : n.kind = "mod_item") :
    plan scope scopes n depth = { steps := moduleSteps n depth } := by
  unfold plan
  simp only [hkind]

theorem plan_of_impl (hkind : n.kind = "impl_item") :
    plan scope scopes n depth = { steps := implSteps scope scopes n depth } := by
  unfold plan
  simp only [hkind]

theorem plan_of_type (htype : isType n) :
    plan scope scopes n depth = { steps := typeSteps scope scopes n } := by
  unfold isType at htype
  simp only [List.contains_cons, List.contains_nil, Bool.or_false, Bool.or_eq_true,
    beq_iff_eq] at htype
  unfold plan
  rcases htype with hkind | hkind | hkind
  all_goals simp only [hkind]

end Plan

theorem trace_subset_of_inModule {scope : Scope} {nodes : List Node} {path : List String}
    {n : Node} (h : InModule nodes path n) {scopes : List String} {depth : Nat}
    (hscopes : scopes.length + path.length ≤ scope.limits.maxScopeDepth)
    (hdepth : depth + path.length ≤ scope.limits.maxTreeDepth) :
    ∃ m ∈ nodes, trace plan scope (scopes ++ path) n (depth + path.length) ⊆
      trace plan scope scopes m depth := by
  induction h generalizing scopes depth with
  | here hn =>
    refine ⟨_, hn, ?_⟩
    rw [List.append_nil]
    apply List.Subset.refl
  | @inside nodes m n name path hm hkind hname _ ih =>
    rw [List.length_cons] at hscopes hdepth
    obtain ⟨k, hk, hsubset⟩ := @ih (scopes ++ [name]) (depth + 1)
      (by rw [List.length_append, List.length_singleton]; omega) (by omega)
    refine ⟨m, hm, ?_⟩
    have hstep : .inside name [] (bodyNodes m) (depth + 1) ∈
        (plan scope scopes m depth).steps := by
      rw [plan_of_module scope scopes depth hkind, moduleSteps, hname]
      apply List.mem_cons_self
    have hnested := stepEvents_subset_trace_of_le (by omega) (by omega) hstep
    rw [List.append_assoc, List.singleton_append] at hsubset
    rw [List.length_cons, Nat.add_comm path.length 1, ← Nat.add_assoc]
    intro event hevent
    apply hnested
    exact List.mem_flatMap.2 ⟨k, hk, hsubset hevent⟩

/--
What a plan records for a node is recorded on the walk, if the node stands directly in a module
within the limits.
-/
theorem recorded_of_inModule {scope : Scope} {nodes : List Node} {path : List String} {n : Node}
    (h : InModule nodes path n) (hwithin : Within scope.limits path) {item : Item}
    (hitem : item ∈ (plan scope path n path.length).items) :
    item ∈ Extract.recorded (traceAll plan scope nodes) := by
  obtain ⟨m, hm, hsubset⟩ := @trace_subset_of_inModule scope nodes path n h [] 0
    (by simpa using hwithin.1) (by simpa using hwithin.2)
  rw [List.nil_append, Nat.zero_add] at hsubset
  apply mem_recorded.2
  apply List.mem_flatMap.2
  exact ⟨m, hm, hsubset (record_mem_trace_of_le hwithin.1 hwithin.2 hitem)⟩

/-! Items -/

/--
The names of the functions in the body of an impl block.
-/
def methodNames (n : Node) : List String := (memberNodes n).filterMap (·.fieldText? "name")

/--
The block of an impl item for the type `type`, inside the given scopes.
-/
def implBlock (scope : Scope) (scopes : List String) (n : Node) (type : String) (depth : Nat) :
    ImplBlock where
  typeName := Text.baseTypeName type
  target := resolve scopes (Text.baseTypeName type)
  traitName := (n.fieldText? "trait").map Text.baseTypeName
  methods := if depth < scope.limits.maxTreeDepth then methodNames n else []

theorem members_methods (scope : Scope) (scopes : List String) (outer : String) (owner : Owner)
    (n : Node) (depth : Nat) :
    (members scope scopes outer owner n (depth + 1)).2 =
      if depth < scope.limits.maxTreeDepth then methodNames n else [] := by
  unfold members methodNames memberNodes bodyNodes
  cases n.field? "body" with
  | none => simp
  | some body =>
    by_cases hdepth : depth < scope.limits.maxTreeDepth
    · simp [hdepth, Nat.not_lt_of_le hdepth]
    · simp [hdepth, Nat.lt_succ_of_le (Nat.le_of_not_lt hdepth)]

theorem implSteps_of_type (scope : Scope) (scopes : List String) {n : Node} (depth : Nat)
    {type : String} (h : n.fieldText? "type" = some type) :
    implSteps scope scopes n depth =
      (members scope scopes (implScope n type) (implOwner n type) n (depth + 1)).1 ++
        [.record (.impl n (implBlock scope scopes n type depth))] := by
  unfold implSteps implScope implOwner implBlock
  rw [h]
  cases n.fieldText? "trait" with
  | none => simp [members_methods]
  | some t => simp [members_methods]

/-! Order -/

def Item.implNode? : Item → Option Node
  | impl node _ => some node
  | _ => none

/--
Nodes of `n` in the order in which they end.
-/
structure Ordered (n : Node) (nodes : List Node) : Prop where
  mem_preorder : ∀ m ∈ nodes, m ∈ n.preorder
  endsBefore : nodes.Pairwise Node.EndsBefore

theorem Ordered.nil (n : Node) : Ordered n [] := ⟨List.forall_mem_nil _, .nil⟩

theorem pairwise_endsBefore_flatMap {nodes : List Node} (hnodes : nodes.Pairwise Node.Before)
    {F : Node → List Node} (hF : ∀ m ∈ nodes, Ordered m (F m)) :
    (nodes.flatMap F).Pairwise Node.EndsBefore := by
  rw [List.pairwise_flatMap]
  refine ⟨fun m hm => (hF m hm).endsBefore, ?_⟩
  apply hnodes.imp_of_mem
  intro a b ha hb hab c hc d hd
  exact .inl (hab.of_mem ((hF a ha).mem_preorder c hc) ((hF b hb).mem_preorder d hd))

section Inside

variable {n : Node} {nodes : List Node} {F : Node → List Node} (h : Inside n nodes)
  (hF : ∀ m ∈ nodes, Ordered m (F m))

include h hF

theorem ordered_flatMap : Ordered n (nodes.flatMap F) where
  mem_preorder k hk := by
    obtain ⟨m, hm, hk⟩ := List.mem_flatMap.1 hk
    exact Node.mem_preorder_trans ((hF m hm).mem_preorder k hk) (h.mem_preorder m hm)
  endsBefore := pairwise_endsBefore_flatMap h.before hF

theorem size_lt_of_mem_flatMap : ∀ k ∈ nodes.flatMap F, k.size < n.size := by
  intro k hk
  obtain ⟨m, hm, hk⟩ := List.mem_flatMap.1 hk
  have hle := Node.size_le_of_mem_preorder ((hF m hm).mem_preorder k hk)
  exact Nat.lt_of_le_of_lt hle (h.size_lt m hm)

end Inside

theorem inside_memberNodes (n : Node) : Inside n (memberNodes n) where
  mem_preorder m hm := (Inside.body n).mem_preorder m (List.mem_of_mem_filter hm)
  size_lt m hm := (Inside.body n).size_lt m (List.mem_of_mem_filter hm)
  before := (Inside.body n).before.filter _

/--
The impl blocks that are recorded from a node on, in the order in which they are recorded.
-/
def implNodes (scope : Scope) (scopes : List String) (n : Node) (depth : Nat) : List Node :=
  collected Item.implNode? plan scope scopes n depth

section Order

variable {scope : Scope} {n : Node}
  (ih : ∀ m, m.size < n.size → ∀ scopes depth, Ordered m (implNodes scope scopes m depth))

include ih

theorem ordered_body (scopes : List String) (depth : Nat) :
    Ordered n ((bodyNodes n).flatMap (implNodes scope scopes · depth)) := by
  apply ordered_flatMap (Inside.body n)
  intro m hm
  apply ih
  exact (Inside.body n).size_lt m hm

theorem ordered_memberSteps (scopes : List String) (outer : String) (owner : Owner) (depth : Nat) :
    Ordered n ((memberSteps scope scopes outer owner depth n).flatMap
      (collectedBy Item.implNode? plan scope scopes)) := by
  unfold memberSteps
  cases n.fieldText? "name" with
  | none => exact Ordered.nil n
  | some name =>
    rw [List.flatMap_cons, List.flatMap_singleton]
    exact ordered_body ih _ _

theorem ordered_members (scopes : List String) (outer : String) (owner : Owner) (depth : Nat) :
    Ordered n ((members scope scopes outer owner n depth).1.flatMap
        (collectedBy Item.implNode? plan scope scopes)) ∧
      ∀ m ∈ (members scope scopes outer owner n depth).1.flatMap
        (collectedBy Item.implNode? plan scope scopes), m.size < n.size := by
  have hmembers := inside_memberNodes n
  have hsteps : ∀ m ∈ memberNodes n,
      Ordered m ((memberSteps scope scopes outer owner depth m).flatMap
        (collectedBy Item.implNode? plan scope scopes)) := by
    intro m hm
    apply ordered_memberSteps
    intro k hk
    apply ih
    exact hk.trans (hmembers.size_lt m hm)
  unfold members
  cases hbody : n.field? "body" with
  | none => exact ⟨Ordered.nil n, List.forall_mem_nil _⟩
  | some body =>
    simp only
    split
    case isTrue => exact ⟨Ordered.nil n, List.forall_mem_nil _⟩
    case isFalse =>
      have hnodes : body.namedChildren.filter isFunction = memberNodes n := by
        rw [memberNodes, bodyNodes, hbody, Option.elim_some]
      rw [hnodes, List.flatMap_assoc]
      exact ⟨ordered_flatMap hmembers hsteps, size_lt_of_mem_flatMap hmembers hsteps⟩

/--
An impl block is recorded behind those inside of it.
-/
theorem ordered_implSteps (scopes : List String) (depth : Nat) :
    Ordered n ((implSteps scope scopes n depth).flatMap
      (collectedBy Item.implNode? plan scope scopes)) := by
  cases htype : n.fieldText? "type" with
  | none =>
    rw [implSteps, htype]
    exact Ordered.nil n
  | some type =>
    obtain ⟨hordered, hsize⟩ :=
      ordered_members ih scopes (implScope n type) (implOwner n type) (depth + 1)
    rw [implSteps_of_type scope scopes depth htype, List.flatMap_append, List.flatMap_singleton]
    change Ordered n (_ ++ [n])
    constructor
    · intro m hm
      rcases List.mem_append.1 hm with hm | hm
      · exact hordered.mem_preorder m hm
      · rw [List.mem_singleton.1 hm]
        apply Node.mem_preorder_self
    · rw [List.pairwise_append]
      refine ⟨hordered.endsBefore, List.pairwise_singleton _ _, ?_⟩
      intro m hm k hk
      rw [List.mem_singleton.1 hk]
      exact .inr ⟨hordered.mem_preorder m hm, hsize m hm⟩

theorem ordered_plan (scopes : List String) (depth : Nat) :
    Ordered n ((plan scope scopes n depth).steps.flatMap
        (collectedBy Item.implNode? plan scope scopes) ++
      if (plan scope scopes n depth).descend then
        n.namedChildren.flatMap (implNodes scope scopes · (depth + 1))
      else []) := by
  rw [plan_eq]
  by_cases hfunction : isFunction n
  · simp only [if_pos hfunction, Bool.false_eq_true, if_false, List.append_nil]
    unfold functionSteps
    cases n.fieldText? "name" with
    | none => exact Ordered.nil n
    | some name =>
      rw [List.flatMap_cons, List.flatMap_singleton]
      exact ordered_body ih _ _
  by_cases himpl : n.kind = "impl_item"
  · simp only [if_neg hfunction, if_pos himpl, Bool.false_eq_true, if_false, List.append_nil]
    exact ordered_implSteps ih scopes depth
  by_cases htrait : n.kind = "trait_item"
  · simp only [if_neg hfunction, if_neg himpl, if_pos htrait, Bool.false_eq_true, if_false,
      List.append_nil]
    unfold traitSteps
    cases n.fieldText? "name" with
    | none => exact Ordered.nil n
    | some name =>
      simp only [List.flatMap_append, List.flatMap_singleton]
      change Ordered n (_ ++ [])
      rw [List.append_nil]
      exact (ordered_members ih scopes name _ (depth + 1)).1
  by_cases htype : isType n
  · simp only [if_neg hfunction, if_neg himpl, if_neg htrait, if_pos htype, Bool.false_eq_true,
      if_false, List.append_nil]
    unfold typeSteps
    cases n.fieldText? "name" with
    | none => exact Ordered.nil n
    | some name => exact Ordered.nil n
  by_cases hmodule : n.kind = "mod_item"
  · simp only [if_neg hfunction, if_neg himpl, if_neg htrait, if_neg htype, if_pos hmodule,
      Bool.false_eq_true, if_false, List.append_nil]
    unfold moduleSteps
    cases n.fieldText? "name" with
    | none => exact Ordered.nil n
    | some name =>
      rw [List.flatMap_singleton]
      exact ordered_body ih _ _
  · simp only [if_neg hfunction, if_neg himpl, if_neg htrait, if_neg htype, if_neg hmodule]
    apply ordered_flatMap (Inside.namedChildren n)
    intro m hm
    apply ih
    exact Node.size_lt_of_mem_namedChildren hm

end Order

theorem ordered_implNodes (scope : Scope) (scopes : List String) (n : Node) (depth : Nat) :
    Ordered n (implNodes scope scopes n depth) := by
  induction n using Node.sizeInduction generalizing scopes depth with
  | step n ih =>
    unfold implNodes
    by_cases h : scopes.length ≤ scope.limits.maxScopeDepth ∧ depth ≤ scope.limits.maxTreeDepth
    · rw [collected_eq _ h]
      exact ordered_plan ih scopes depth
    · rw [collected_of_limits _ h]
      exact Ordered.nil n

/--
The impl blocks of a file are recorded in the order in which they end.
-/
theorem pairwise_endsBefore_recorded (scope : Scope) (root : Node) :
    ((Extract.recorded (traceAll plan scope root.namedChildren)).filterMap
      Item.implNode?).Pairwise Node.EndsBefore := by
  unfold traceAll
  rw [filterMap_recorded_flatMap]
  apply pairwise_endsBefore_flatMap root.pairwise_index_namedChildren
  intro m _
  apply ordered_implNodes

theorem eq_of_impl_mem {items : List Item}
    (h : (items.filterMap Item.implNode?).Pairwise Node.EndsBefore) {n : Node}
    {block other : ImplBlock} (hblock : .impl n block ∈ items) (hother : .impl n other ∈ items) :
    block = other := by
  -- No node ends before itself, so a node is recorded once.
  have hnode {items : List Item} {block : ImplBlock} (hitem : .impl n block ∈ items) :
      n ∈ items.filterMap Item.implNode? :=
    List.mem_filterMap.2 ⟨_, hitem, rfl⟩
  induction items with
  | nil => cases hblock
  | cons item items ih =>
    rcases List.mem_cons.1 hblock with rfl | hblock'
    · rcases List.mem_cons.1 hother with hother | hother
      · exact (Item.impl.inj hother).2.symm
      · have hbefore := (List.pairwise_cons.1 h).1 n (hnode hother)
        exact absurd hbefore n.not_endsBefore_self
    · rcases List.mem_cons.1 hother with rfl | hother
      · have hbefore := (List.pairwise_cons.1 h).1 n (hnode hblock')
        exact absurd hbefore n.not_endsBefore_self
      · apply ih _ hblock' hother
        exact h.sublist ((List.sublist_cons_self item items).filterMap _)

/-! What is recorded -/

/--
What a type and an impl block are recorded as.
-/
def Item.IsPlain (scope : Scope) : Item → Prop
  | type n decl path => ∃ scopes name kind, n.fieldText? "name" = some name ∧
      decl = classDecl scope n name kind [] [] ∧ path = pathText (scopes ++ [name])
  | impl n block => ∃ scopes type depth, n.fieldText? "type" = some type ∧
      block = implBlock scope scopes n type depth
  | _ => True

section Plain

variable {scope : Scope} {scopes : List String} {n : Node} {depth : Nat}

theorem isPlain_members {outer : String} {owner : Owner} :
    ∀ item ∈ (members scope scopes outer owner n depth).1.filterMap Step.item?,
      item.IsPlain scope := by
  unfold members
  cases n.field? "body" with
  | none => exact List.forall_mem_nil _
  | some body =>
    simp only
    split
    case isTrue => exact List.forall_mem_nil _
    case isFalse =>
      intro item hitem
      rw [List.filterMap_flatMap] at hitem
      obtain ⟨m, -, hitem⟩ := List.mem_flatMap.1 hitem
      unfold memberSteps at hitem
      cases hname : m.fieldText? "name" with
      | none =>
        rw [hname] at hitem
        cases hitem
      | some name =>
        rw [hname] at hitem
        rw [List.mem_singleton.1 hitem]
        trivial

theorem isPlain_append {items : List Item} (h : ∀ item ∈ items, item.IsPlain scope) {last : Item}
    (hlast : last.IsPlain scope) : ∀ item ∈ items ++ [last], item.IsPlain scope := by
  intro item hitem
  rcases List.mem_append.1 hitem with hitem | hitem
  · exact h item hitem
  · rw [List.mem_singleton.1 hitem]
    exact hlast

theorem isPlain_plan : ∀ item ∈ (plan scope scopes n depth).items, item.IsPlain scope := by
  rw [plan_eq]
  unfold Plan.items
  by_cases hfunction : isFunction n
  · simp only [if_pos hfunction]
    unfold functionSteps
    cases n.fieldText? "name" with
    | none => exact List.forall_mem_nil _
    | some name => exact isPlain_append (List.forall_mem_nil _) trivial
  by_cases himpl : n.kind = "impl_item"
  · simp only [if_neg hfunction, if_pos himpl]
    cases htype : n.fieldText? "type" with
    | none =>
      rw [implSteps, htype]
      exact List.forall_mem_nil _
    | some type =>
      rw [implSteps_of_type scope scopes depth htype, List.filterMap_append]
      exact isPlain_append isPlain_members ⟨scopes, type, depth, htype, rfl⟩
  by_cases htrait : n.kind = "trait_item"
  · simp only [if_neg hfunction, if_neg himpl, if_pos htrait]
    unfold traitSteps
    cases n.fieldText? "name" with
    | none => exact List.forall_mem_nil _
    | some name =>
      simp only [List.filterMap_append]
      exact isPlain_append isPlain_members trivial
  by_cases htype : isType n
  · simp only [if_neg hfunction, if_neg himpl, if_neg htrait, if_pos htype]
    unfold typeSteps
    cases hname : n.fieldText? "name" with
    | none => exact List.forall_mem_nil _
    | some name =>
      exact isPlain_append (List.forall_mem_nil _) ⟨scopes, name, _, hname, rfl, rfl⟩
  by_cases hmodule : n.kind = "mod_item"
  · simp only [if_neg hfunction, if_neg himpl, if_neg htrait, if_neg htype, if_pos hmodule]
    unfold moduleSteps
    cases n.fieldText? "name" with
    | none => exact List.forall_mem_nil _
    | some name => exact List.forall_mem_nil _
  · simp only [if_neg hfunction, if_neg himpl, if_neg htrait, if_neg htype, if_neg hmodule]
    exact List.forall_mem_nil _

end Plain

theorem isPlain_recorded (scope : Scope) (nodes : List Node) :
    ∀ item ∈ Extract.recorded (traceAll plan scope nodes), item.IsPlain scope :=
  (cumulative_forall (Item.IsPlain scope)).recorded_traceAll (fun _ _ _ => isPlain_plan) nodes

/-! Joining -/

section Joins

variable {block : ImplBlock} {paths : List String}

theorem joins_of_mem (h : block.target ∈ paths) (path : String) :
    block.joins paths path ↔ path = block.target := by
  have hjoins : block.joins paths path ↔ block.target = path := by
    unfold ImplBlock.joins
    simp [h]
  rw [hjoins, eq_comm]

/--
A block whose type is not among the paths joins the only type with that name, if there is one.
-/
theorem joins_of_notMem (h : block.target ∉ paths) {path : String} (hpath : path ∈ paths) :
    block.joins paths path ↔
      paths.filter (lastSegment · == lastSegment block.typeName) = [path] := by
  have hne : block.target ≠ path := by
    rintro rfl
    exact h hpath
  have hjoins : block.joins paths path ↔
      paths.countP (lastSegment · == lastSegment path) = 1 ∧
        lastSegment block.typeName = lastSegment path := by
    unfold ImplBlock.joins
    simp [h, hne]
  rw [hjoins, List.countP_eq_length_filter]
  constructor
  · rintro ⟨hcount, hname⟩
    rw [hname]
    obtain ⟨only, honly⟩ := List.length_eq_one_iff.1 hcount
    have hmem : path ∈ paths.filter (lastSegment · == lastSegment path) :=
      List.mem_filter.2 ⟨hpath, beq_self_eq_true _⟩
    rw [honly] at hmem ⊢
    rw [List.mem_singleton.1 hmem]
  · intro hfilter
    have hmem : path ∈ paths.filter (lastSegment · == lastSegment block.typeName) := by
      rw [hfilter]
      apply List.mem_cons_self
    have hname : lastSegment path = lastSegment block.typeName :=
      beq_iff_eq.1 (List.mem_filter.1 hmem).2
    rw [hname, hfilter]
    exact ⟨rfl, rfl⟩

theorem eq_of_joins {p q : String} (hp : p ∈ paths) (hq : q ∈ paths) (hjoinsp : block.joins paths p)
    (hjoinsq : block.joins paths q) : p = q := by
  by_cases h : block.target ∈ paths
  · rw [(joins_of_mem h p).1 hjoinsp, (joins_of_mem h q).1 hjoinsq]
  · have hfilter := (joins_of_notMem h hp).1 hjoinsp
    rw [(joins_of_notMem h hq).1 hjoinsq] at hfilter
    exact (List.cons.inj hfilter).1.symm

end Joins

/--
Inherent blocks add their methods, one block after the other.
-/
theorem methods_foldl_joinTo (joined : List ImplBlock) (c : ClassDecl) :
    (joined.foldl ImplBlock.joinTo c).methods =
      c.methods ++ (joined.filter (·.traitName.isNone)).flatMap (·.methods) := by
  induction joined generalizing c with
  | nil => simp
  | cons block joined ih =>
    rw [List.foldl_cons, ih, ImplBlock.joinTo]
    cases htrait : block.traitName with
    | none => simp [htrait]
    | some t =>
      simp only [htrait, Option.isNone_some, Bool.false_eq_true, not_false_eq_true,
        List.filter_cons_of_neg]
      split
      case isTrue => rfl
      case isFalse => rfl

/--
Blocks for a trait add the trait, unless a block before has added it.
-/
theorem baseClasses_foldl_joinTo (joined : List ImplBlock) {c : ClassDecl}
    (hc : c.baseClasses = []) :
    (joined.foldl ImplBlock.joinTo c).baseClasses =
      (joined.filterMap (·.traitName)).eraseDups := by
  induction joined using List.reverseRecOn with
  | nil => exact hc
  | append_singleton joined block ih =>
    rw [List.foldl_append, List.foldl_cons, List.foldl_nil, List.filterMap_append,
      ImplBlock.joinTo]
    cases htrait : block.traitName with
    | none => simp [htrait, ih]
    | some t =>
      simp only [List.filterMap_cons, htrait, List.filterMap_nil, List.contains_iff_mem]
      have hmem : t ∈ (joined.foldl ImplBlock.joinTo c).baseClasses ↔
          t ∈ joined.filterMap (·.traitName) := by
        rw [ih, List.mem_eraseDups]
      rw [eraseDups_append_singleton, ← ih]
      by_cases hseen : t ∈ joined.filterMap (·.traitName)
      · rw [if_pos hseen, if_pos (hmem.2 hseen), List.append_nil]
      · rw [if_neg hseen, if_neg (mt hmem.1 hseen)]

theorem joinBlocks_of_empty (paths : List String) (blocks : List ImplBlock) (path : String)
    {c : ClassDecl} (hmethods : c.methods = []) (hbases : c.baseClasses = []) :
    let joined := blocks.filter (·.joins paths path)
    joinBlocks paths blocks path c =
      { c with
        methods := (joined.filter (·.traitName.isNone)).flatMap (·.methods)
        baseClasses := (joined.filterMap (·.traitName)).eraseDups } := by
  intro joined
  have hfold := methods_foldl_joinTo joined c
  rw [hmethods, List.nil_append] at hfold
  obtain ⟨baseClasses, methods, heq⟩ := joinBlocks_eq paths blocks path c
  rw [← hfold, ← baseClasses_foldl_joinTo joined hbases]
  change _ = { c with
    methods := (joinBlocks paths blocks path c).methods
    baseClasses := (joinBlocks paths blocks path c).baseClasses }
  rw [heq]

/--
How the impl blocks among the items of a file join its types.
-/
structure BlocksJoin (scope : Scope) (root : Node) (items : List Item) (paths : List String)
    (blocks : List ImplBlock) : Prop where
  /-- Blocks are in the order in which they end. -/
  endsBefore : (items.filterMap Item.implNode?).Pairwise Node.EndsBefore
  isPlain : ∀ item ∈ items, item.IsPlain scope
  /-- A block joins types at one path only. -/
  eq_path : ∀ block ∈ blocks, ∀ p ∈ paths, ∀ q ∈ paths,
    block.joins paths p → block.joins paths q → p = q
  /-- A type in a module has the path of the module before its name. -/
  exists_type : ∀ modules n name, InModule root.namedChildren modules n →
    Within scope.limits modules → isType n → n.fieldText? "name" = some name →
    ∃ decl, .type n decl (pathText (modules ++ [name])) ∈ items
  /-- A block that names a type of the file joins the types at its path. -/
  joins_iff : ∀ modules n type segments path, InModule root.namedChildren modules n →
    Within scope.limits modules → n.kind = "impl_item" → n.fieldText? "type" = some type →
    TypeSpelled type segments → LeadsTo modules segments path → pathText path ∈ paths →
    ∃ block, .impl n block ∈ items ∧ (∀ other, .impl n other ∈ items → other = block) ∧
      ∀ p, block.joins paths p ↔ p = pathText path
  /-- Any other block joins a type if it is the only one with that name. -/
  joins_by_name : ∀ block ∈ blocks, block.target ∉ paths → ∀ p ∈ paths,
    (block.joins paths p ↔
      paths.filter (lastSegment · == lastSegment block.typeName) = [p])
  /-- A type has the methods and the traits of the blocks that join it. -/
  joined : ∀ n decl path, .type n decl path ∈ items →
    let joined := blocks.filter (·.joins paths path)
    joinBlocks paths blocks path decl =
      { decl with
        methods := (joined.filter (·.traitName.isNone)).flatMap (·.methods)
        baseClasses := (joined.filterMap (·.traitName)).eraseDups }

/--
The classes of a file are its types with what the impl blocks add to them, and its traits.
-/
theorem impl_blocks_join_their_type (scope : Scope) (root : Node) (f : Fallbacks) :
    let items := ((Extract.declarations plan scope root.namedChildren).run f).1
    let paths := items.filterMap Item.path?
    let blocks := items.filterMap Item.impl?
    ((declarations scope root).run f).1.classes = items.filterMap (Item.class? paths blocks) ∧
    BlocksJoin scope root items paths blocks := by
  intro items paths blocks
  have hitems : items = Extract.recorded (traceAll plan scope root.namedChildren) :=
    congrArg Prod.fst (run_declarations plan scope root.namedChildren f)
  have hplain : ∀ item ∈ items, item.IsPlain scope := by
    rw [hitems]
    exact isPlain_recorded scope root.namedChildren
  have hends : (items.filterMap Item.implNode?).Pairwise Node.EndsBefore := by
    rw [hitems]
    exact pairwise_endsBefore_recorded scope root
  refine ⟨rfl, hends, hplain, ?_, ?_, ?_, ?_, ?_⟩
  · intro block _ p hp q hq
    exact eq_of_joins hp hq
  · intro modules n name hin hwithin htype hname
    have htype : ∃ decl, .type n decl (pathText (modules ++ [name])) ∈
        (plan scope modules n modules.length).items := by
      rw [plan_of_type scope modules modules.length htype, typeSteps, hname]
      exact ⟨_, List.mem_cons_self⟩
    obtain ⟨decl, hdecl⟩ := htype
    rw [hitems]
    exact ⟨decl, recorded_of_inModule hin hwithin hdecl⟩
  · intro modules n type segs path hin hwithin hkind htype hspelled hleads hpath
    have hblock : .impl n (implBlock scope modules n type modules.length) ∈ items := by
      rw [hitems]
      apply recorded_of_inModule hin hwithin
      rw [plan_of_impl scope modules modules.length hkind, Plan.items,
        implSteps_of_type scope modules modules.length htype, List.filterMap_append]
      apply List.mem_append_right
      apply List.mem_cons_self
    have htarget : (implBlock scope modules n type modules.length).target = pathText path :=
      resolve_baseTypeName hspelled hleads
    refine ⟨_, hblock, fun other hother => eq_of_impl_mem hends hother hblock, ?_⟩
    intro p
    rw [← htarget] at hpath ⊢
    exact joins_of_mem hpath p
  · intro block _ htarget p hp
    exact joins_of_notMem htarget hp
  · intro n decl path hitem
    obtain ⟨scopes, name, kind, -, rfl, -⟩ := hplain _ hitem
    exact joinBlocks_of_empty paths blocks path rfl rfl

def sameNames : Tree :=
  .node ⟨"source_file", true, false, none, 0, 92⟩ [
    .node ⟨"struct_item", true, false, none, 0, 9⟩ [
      .node ⟨"struct", false, false, none, 0, 6⟩ [],
      .node ⟨"type_identifier", true, false, some "name", 7, 8⟩ [],
      .node ⟨";", false, false, none, 8, 9⟩ []],
    .node ⟨"impl_item", true, false, none, 10, 28⟩ [
      .node ⟨"impl", false, false, none, 10, 14⟩ [],
      .node ⟨"type_identifier", true, false, some "trait", 15, 16⟩ [],
      .node ⟨"for", false, false, none, 17, 20⟩ [],
      .node ⟨"scoped_type_identifier", true, false, some "type", 21, 25⟩ [
        .node ⟨"identifier", true, false, some "path", 21, 22⟩ [],
        .node ⟨"::", false, false, none, 22, 24⟩ [],
        .node ⟨"type_identifier", true, false, some "name", 24, 25⟩ []],
      .node ⟨"declaration_list", true, false, some "body", 26, 28⟩ [
        .node ⟨"\x7b", false, false, none, 26, 27⟩ [],
        .node ⟨"\x7d", false, false, none, 27, 28⟩ []]],
    .node ⟨"mod_item", true, false, none, 29, 92⟩ [
      .node ⟨"mod", false, false, none, 29, 32⟩ [],
      .node ⟨"identifier", true, false, some "name", 33, 34⟩ [],
      .node ⟨"declaration_list", true, false, some "body", 35, 92⟩ [
        .node ⟨"\x7b", false, false, none, 35, 36⟩ [],
        .node ⟨"struct_item", true, false, none, 37, 46⟩ [
          .node ⟨"struct", false, false, none, 37, 43⟩ [],
          .node ⟨"type_identifier", true, false, some "name", 44, 45⟩ [],
          .node ⟨";", false, false, none, 45, 46⟩ []],
        .node ⟨"mod_item", true, false, none, 47, 90⟩ [
          .node ⟨"mod", false, false, none, 47, 50⟩ [],
          .node ⟨"identifier", true, false, some "name", 51, 52⟩ [],
          .node ⟨"declaration_list", true, false, some "body", 53, 90⟩ [
            .node ⟨"\x7b", false, false, none, 53, 54⟩ [],
            .node ⟨"impl_item", true, false, none, 55, 88⟩ [
              .node ⟨"impl", false, false, none, 55, 59⟩ [],
              .node ⟨"generic_type", true, false, some "type", 60, 74⟩ [
                .node ⟨"scoped_type_identifier", true, false, some "type", 60, 70⟩ [
                  .node ⟨"super", true, false, some "path", 60, 65⟩ [],
                  .node ⟨"::", false, false, none, 66, 68⟩ [],
                  .node ⟨"type_identifier", true, false, some "name", 69, 70⟩ []],
                .node ⟨"type_arguments", true, false, some "type_arguments", 70, 74⟩ [
                  .node ⟨"<", false, false, none, 70, 71⟩ [],
                  .node ⟨"primitive_type", true, false, none, 71, 73⟩ [],
                  .node ⟨">", false, false, none, 73, 74⟩ []]],
              .node ⟨"declaration_list", true, false, some "body", 75, 88⟩ [
                .node ⟨"\x7b", false, false, none, 75, 76⟩ [],
                .node ⟨"function_item", true, false, none, 77, 86⟩ [
                  .node ⟨"fn", false, false, none, 77, 79⟩ [],
                  .node ⟨"identifier", true, false, some "name", 80, 81⟩ [],
                  .node ⟨"parameters", true, false, some "parameters", 81, 83⟩ [
                    .node ⟨"(", false, false, none, 81, 82⟩ [],
                    .node ⟨")", false, false, none, 82, 83⟩ []],
                  .node ⟨"block", true, false, some "body", 84, 86⟩ [
                    .node ⟨"\x7b", false, false, none, 84, 85⟩ [],
                    .node ⟨"\x7d", false, false, none, 85, 86⟩ []]],
                .node ⟨"\x7d", false, false, none, 87, 88⟩ []]],
            .node ⟨"\x7d", false, false, none, 89, 90⟩ []]],
        .node ⟨"\x7d", false, false, none, 91, 92⟩ []]]]

def sameNamesRoot : Node :=
  .root (.ofString
    "struct C; impl D for a::C \x7b\x7d mod a \x7b struct C; mod b \x7b impl super :: C<u8> \x7b fn m() \x7b\x7d \x7d \x7d \x7d")
    sameNames

def sameNamesAt (index : Nat) : Node := (sameNamesRoot.descendant? index).getD sameNamesRoot

theorem sameNames_join :
    let items := ((Extract.declarations plan ⟨"a.rs", {}⟩ sameNamesRoot.namedChildren).run 0).1
    let paths := items.filterMap Item.path?
    paths = ["C", "a::C"] ∧
    (((declarations ⟨"a.rs", {}⟩ sameNamesRoot).run 0).1.classes.map fun c =>
      (c.name, c.methods, c.baseClasses)) = [("C", [], []), ("C", ["m"], ["D"])] ∧
    (∃ block, .impl (sameNamesAt 5) block ∈ items ∧
      ∀ p, block.joins paths p ↔ p = "a::C") ∧
    ∃ block, .impl (sameNamesAt 30) block ∈ items ∧ ∀ p, block.joins paths p ↔ p = "a::C" := by
  intro items paths
  have hpaths : paths = ["C", "a::C"] := by decide +kernel
  have hmem : pathText ["a", "C"] ∈ paths := by
    rw [hpaths]
    decide +kernel
  have hspelled : TypeSpelled "super :: C<u8>" ["super", "C"] := by
    refine ⟨['s', 'u', 'p', 'e', 'r', ' ', ':', ':', ' ', 'C'], ['<', 'u', '8', '>'],
      by decide, ?_, .inr rfl⟩
    exact @Spelled.cons "super" [] [' '] [' ', 'C'] ["C"] (by decide) rfl rfl
      (@Spelled.last "C" [' '] [] (by decide) rfl rfl)
  have hspelled' : TypeSpelled "a::C" ["a", "C"] := by
    refine ⟨['a', ':', ':', 'C'], [], by decide, ?_, .inl rfl⟩
    exact @Spelled.cons "a" [] [] ['C'] ["C"] (by decide) rfl rfl
      (@Spelled.last "C" [] [] (by decide) rfl rfl)
  have hnested : InModule sameNamesRoot.namedChildren ["a", "b"] (sameNamesAt 30) := by
    refine .inside (m := sameNamesAt 16) (List.mem_of_getElem? (i := 2) ?_) ?_ ?_
      (.inside (m := sameNamesAt 25) (List.mem_of_getElem? (i := 1) ?_) ?_ ?_
        (.here (List.mem_of_getElem? (i := 0) ?_)))
    all_goals with_unfolding_all rfl
  have hroot : InModule sameNamesRoot.namedChildren [] (sameNamesAt 5) := by
    refine .here (List.mem_of_getElem? (i := 1) ?_)
    with_unfolding_all rfl
  obtain ⟨hclasses, hjoin⟩ := impl_blocks_join_their_type ⟨"a.rs", {}⟩ sameNamesRoot 0
  refine ⟨hpaths, ?_, ?_, ?_⟩
  · rw [hclasses]
    decide +kernel
  · obtain ⟨block, hblock, -, hiff⟩ := hjoin.joins_iff [] (sameNamesAt 5) "a::C" ["a", "C"]
      ["a", "C"] hroot ⟨by decide, by decide⟩ (by decide +kernel) (by decide +kernel) hspelled'
      (.relative (k := 0) (Nat.le_refl 0) (by decide) (by decide)) hmem
    exact ⟨block, hblock, hiff⟩
  · obtain ⟨block, hblock, -, hiff⟩ := hjoin.joins_iff ["a", "b"] (sameNamesAt 30)
      "super :: C<u8>" ["super", "C"] ["a", "C"] hnested ⟨by decide, by decide⟩
      (by decide +kernel) (by decide +kernel) hspelled
      (.relative (k := 1) (by decide) (by decide) (by decide)) hmem
    exact ⟨block, hblock, hiff⟩

def beyondLimit : Tree :=
  .node ⟨"source_file", true, false, none, 0, 80⟩ [
    .node ⟨"mod_item", true, false, none, 0, 36⟩ [
      .node ⟨"mod", false, false, none, 0, 3⟩ [],
      .node ⟨"identifier", true, false, some "name", 4, 5⟩ [],
      .node ⟨"declaration_list", true, false, some "body", 6, 36⟩ [
        .node ⟨"\x7b", false, false, none, 6, 7⟩ [],
        .node ⟨"mod_item", true, false, none, 8, 34⟩ [
          .node ⟨"mod", false, false, none, 8, 11⟩ [],
          .node ⟨"identifier", true, false, some "name", 12, 13⟩ [],
          .node ⟨"declaration_list", true, false, some "body", 14, 34⟩ [
            .node ⟨"\x7b", false, false, none, 14, 15⟩ [],
            .node ⟨"struct_item", true, false, none, 16, 32⟩ [
              .node ⟨"visibility_modifier", true, false, none, 16, 19⟩ [
                .node ⟨"pub", false, false, none, 16, 19⟩ []],
              .node ⟨"struct", false, false, none, 20, 26⟩ [],
              .node ⟨"type_identifier", true, false, some "name", 27, 31⟩ [],
              .node ⟨";", false, false, none, 31, 32⟩ []],
            .node ⟨"\x7d", false, false, none, 33, 34⟩ []]],
        .node ⟨"\x7d", false, false, none, 35, 36⟩ []]],
    .node ⟨"struct_item", true, false, none, 37, 49⟩ [
      .node ⟨"struct", false, false, none, 37, 43⟩ [],
      .node ⟨"type_identifier", true, false, some "name", 44, 48⟩ [],
      .node ⟨";", false, false, none, 48, 49⟩ []],
    .node ⟨"impl_item", true, false, none, 50, 79⟩ [
      .node ⟨"impl", false, false, none, 50, 54⟩ [],
      .node ⟨"scoped_type_identifier", true, false, some "type", 55, 65⟩ [
        .node ⟨"scoped_identifier", true, false, some "path", 55, 59⟩ [
          .node ⟨"identifier", true, false, some "path", 55, 56⟩ [],
          .node ⟨"::", false, false, none, 56, 58⟩ [],
          .node ⟨"identifier", true, false, some "name", 58, 59⟩ []],
        .node ⟨"::", false, false, none, 59, 61⟩ [],
        .node ⟨"type_identifier", true, false, some "name", 61, 65⟩ []],
      .node ⟨"declaration_list", true, false, some "body", 66, 79⟩ [
        .node ⟨"\x7b", false, false, none, 66, 67⟩ [],
        .node ⟨"function_item", true, false, none, 68, 77⟩ [
          .node ⟨"fn", false, false, none, 68, 70⟩ [],
          .node ⟨"identifier", true, false, some "name", 71, 72⟩ [],
          .node ⟨"parameters", true, false, some "parameters", 72, 74⟩ [
            .node ⟨"(", false, false, none, 72, 73⟩ [],
            .node ⟨")", false, false, none, 73, 74⟩ []],
          .node ⟨"block", true, false, some "body", 75, 77⟩ [
            .node ⟨"\x7b", false, false, none, 75, 76⟩ [],
            .node ⟨"\x7d", false, false, none, 76, 77⟩ []]],
        .node ⟨"\x7d", false, false, none, 78, 79⟩ []]]]

def beyondLimitRoot : Node :=
  .root (.ofString
    "mod a \x7b mod b \x7b pub struct Conn; \x7d \x7d\nstruct Conn;\nimpl a::b::Conn \x7b fn m() \x7b\x7d \x7d\n")
    beyondLimit

def beyondLimitAt (index : Nat) : Node := (beyondLimitRoot.descendant? index).getD beyondLimitRoot

/--
An impl block for a type beyond the limit on the nesting joins another type of the same name.
-/
theorem type_beyond_limit_not_joined :
    let scope : Scope := ⟨"a.rs", { maxScopeDepth := 1 }⟩
    InModule beyondLimitRoot.namedChildren ["a", "b"] (beyondLimitAt 11) ∧
    isType (beyondLimitAt 11) ∧ (beyondLimitAt 11).fieldText? "name" = some "Conn" ∧
    InModule beyondLimitRoot.namedChildren [] (beyondLimitAt 23) ∧
    (beyondLimitAt 23).kind = "impl_item" ∧
    (beyondLimitAt 23).fieldText? "type" = some "a::b::Conn" ∧
    TypeSpelled "a::b::Conn" ["a", "b", "Conn"] ∧
    LeadsTo [] ["a", "b", "Conn"] ["a", "b", "Conn"] ∧
    (((declarations scope beyondLimitRoot).run 0).1.classes.map fun c =>
      (c.name, c.startLine, c.methods)) = [("Conn", 2, ["m"])] := by
  intro scope
  refine ⟨?_, by decide +kernel, by decide +kernel, .here (List.mem_of_getElem? (i := 2) ?_),
    by decide +kernel, by decide +kernel, ?_,
    .relative (k := 0) (Nat.le_refl 0) (by decide) (by decide), by decide +kernel⟩
  · refine .inside (m := beyondLimitAt 1) (List.mem_of_getElem? (i := 0) ?_) ?_ ?_
      (.inside (m := beyondLimitAt 6) (List.mem_of_getElem? (i := 0) ?_) ?_ ?_
        (.here (List.mem_of_getElem? (i := 0) ?_)))
    all_goals with_unfolding_all rfl
  · with_unfolding_all rfl
  · refine ⟨['a', ':', ':', 'b', ':', ':', 'C', 'o', 'n', 'n'], [], by decide, ?_, .inl rfl⟩
    exact @Spelled.cons "a" [] [] _ _ (by decide) rfl rfl
      (@Spelled.cons "b" [] [] _ _ (by decide) rfl rfl
        (@Spelled.last "Conn" [] [] (by decide) rfl rfl))

end Rust

end Polyglot
