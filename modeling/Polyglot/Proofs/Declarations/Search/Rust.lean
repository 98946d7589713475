import Polyglot.Proofs.Declarations.Rust
import Polyglot.Proofs.Declarations.Search

/-!
This module contains the search for the declarations of Rust. It goes on in the bodies of functions
and modules, in the bodies of the functions of traits and impl blocks, and otherwise in all named
children. It passes over the heads of these items, over everything else in traits and impl blocks,
and over types.
-/

namespace Polyglot.Rust

open Extract Search

/--
The functions in the body of a trait or an impl block.
-/
def memberNodes (n : Node) : List Node := (bodyNodes n).filter isFunction

def memberOpens (n : Node) : List Node := (memberNodes n).flatMap bodyNodes

def search : Search where
  owns n :=
    if isFunction n then [n]
    else if n.kind = "impl_item" then memberNodes n
    else if n.kind = "trait_item" then memberNodes n ++ [n]
    else if isType n then [n]
    else []
  opens n :=
    if isFunction n then bodyNodes n
    else if n.kind = "impl_item" then memberOpens n
    else if n.kind = "trait_item" then memberOpens n
    else if isType n then []
    else if n.kind = "mod_item" then if (n.fieldText? "name").isSome then bodyNodes n else []
    else n.namedChildren

theorem fits_members (n : Node) : Fits n (memberNodes n) (memberOpens n) := by
  have hbody := Inside.body n
  rw [← List.flatMap_singleton' (memberNodes n)]
  apply Fits.flatMap
  · intro m hm
    exact hbody.mem_preorder m (List.mem_of_mem_filter hm)
  · exact hbody.before.filter _
  · intro m _
    exact (Inside.body m).fits_self

theorem size_lt_of_mem_members {n m : Node} (h : m ∈ memberOpens n) : m.size < n.size := by
  obtain ⟨k, hk, hm⟩ := List.mem_flatMap.1 h
  have hm := (Inside.body k).size_lt m hm
  have hk := (Inside.body n).size_lt k (List.mem_of_mem_filter hk)
  omega

theorem inside_module (n : Node) :
    Inside n (if (n.fieldText? "name").isSome then bodyNodes n else []) := by
  split
  case isTrue => exact Inside.body n
  case isFalse => exact Inside.nil n

theorem lawful_search : search.Lawful where
  fits n := by
    unfold search
    simp only
    by_cases hfunction : isFunction n
    · simp only [if_pos hfunction]
      exact (Inside.body n).fits_self
    by_cases himpl : n.kind = "impl_item"
    · simp only [if_neg hfunction, if_pos himpl]
      exact fits_members n
    by_cases htrait : n.kind = "trait_item"
    · simp only [if_neg hfunction, if_neg himpl, if_pos htrait]
      apply (fits_members n).append_self
      intro m
      exact size_lt_of_mem_members
    by_cases htype : isType n
    · simp only [if_neg hfunction, if_neg himpl, if_neg htrait, if_pos htype]
      exact (Inside.nil n).fits_self
    by_cases hmodule : n.kind = "mod_item"
    · simp only [if_neg hfunction, if_neg himpl, if_neg htrait, if_neg htype, if_pos hmodule]
      exact (inside_module n).fits
    · simp only [if_neg hfunction, if_neg himpl, if_neg htrait, if_neg htype, if_neg hmodule]
      exact (Inside.namedChildren n).fits
  size_lt n m hm := by
    unfold search at hm
    simp only at hm
    split at hm
    case isTrue => exact (Inside.body n).size_lt m hm
    case isFalse =>
      split at hm
      case isTrue => exact size_lt_of_mem_members hm
      case isFalse =>
        split at hm
        case isTrue => exact size_lt_of_mem_members hm
        case isFalse =>
          split at hm
          case isTrue => nomatch hm
          case isFalse =>
            split at hm
            case isTrue => exact (inside_module n).size_lt m hm
            case isFalse => exact (Inside.namedChildren n).size_lt m hm

/--
The function or the class that an item declares, once the impl blocks have joined it.
-/
def Item.declared? (paths : List String) (blocks : List ImplBlock) : Item → Option Declared
  | function node decl => some (.function node decl)
  | type node decl path => some (.type node (joinBlocks paths blocks path decl))
  | trait node decl => some (.type node decl)
  | impl _ _ => none

theorem assemble_eq (items : List Item) :
    assemble items = Declared.assemble (items.filterMap
      (Item.declared? (items.filterMap Item.path?) (items.filterMap Item.impl?))) := by
  unfold assemble Declared.assemble
  simp only [List.filterMap_filterMap]
  congr 1
  · apply List.filterMap_congr
    intro item _
    cases item <;> rfl
  · apply List.filterMap_congr
    intro item _
    cases item <;> rfl

/--
Impl blocks add to the base classes and the methods, and to nothing else.
-/
theorem joinBlocks_eq (paths : List String) (blocks : List ImplBlock) (path : String)
    (c : ClassDecl) : ∃ baseClasses methods,
      joinBlocks paths blocks path c = { c with baseClasses, methods } := by
  unfold joinBlocks
  generalize blocks.filter (·.joins paths path) = joined
  induction joined generalizing c with
  | nil => exact ⟨c.baseClasses, c.methods, rfl⟩
  | cons block joined ih =>
    obtain ⟨baseClasses, methods, heq⟩ := ih (ImplBlock.joinTo c block)
    refine ⟨baseClasses, methods, heq.trans ?_⟩
    unfold ImplBlock.joinTo
    split
    case h_2 => rfl
    case h_1 =>
      split
      case isTrue => rfl
      case isFalse => rfl

section Plan

variable (scope : Scope) (scopes : List String) (paths : List String) (blocks : List ImplBlock)

abbrev ShowsAt (file : String) : List (Step Item) → (owns opens : List Node) → Prop :=
  Shows (fun item d => ∃ e ∈ item.declared? paths blocks, e.Describes file d)
    fun item d => ∃ e ∈ item.declared? paths blocks, e.node = d

/--
A step that records an item which declares something at `n`.
-/
theorem shows_item {file : String} {item : Item} {e : Declared} {n : Node}
    (he : item.declared? paths blocks = some e) (hdescribes : e.Describes file n) :
    ShowsAt paths blocks file [.record item] [n] [] := by
  apply shows_record
  · exact ⟨e, he, hdescribes⟩
  · rintro k ⟨e', he', rfl⟩
    obtain rfl : e = e' := Option.some.inj (he.symm.trans he')
    exact hdescribes.node_eq

theorem shows_impl {file : String} (n : Node) (block : ImplBlock) :
    ShowsAt paths blocks file [.record (.impl n block)] [] [] := by
  refine ⟨rfl, nofun, ?_⟩
  rintro item hitem d ⟨e, he, _⟩
  rw [List.mem_singleton.1 hitem] at he
  nomatch he

theorem shows_functionSteps {n : Node} {depth : Nat}
    (hclean : .skipped ∉ functionSteps scope scopes n depth) :
    ShowsAt paths blocks scope.file (functionSteps scope scopes n depth) [n] (bodyNodes n) := by
  unfold functionSteps at *
  cases hname : n.fieldText? "name" with
  | none =>
    rw [hname] at hclean
    exact absurd List.mem_cons_self hclean
  | some name =>
    apply Shows.append (shows_item paths blocks rfl _)
      (shows_inside name [] (bodyNodes n) (depth + 1))
    exact ⟨rfl, hname, rfl, rfl, rfl⟩

theorem shows_memberSteps {outer : String} {owner : Owner} {n : Node} {depth : Nat}
    (hclean : .skipped ∉ memberSteps scope scopes outer owner depth n) :
    ShowsAt paths blocks scope.file (memberSteps scope scopes outer owner depth n) [n]
      (bodyNodes n) := by
  unfold memberSteps at *
  cases hname : n.fieldText? "name" with
  | none =>
    rw [hname] at hclean
    exact absurd List.mem_cons_self hclean
  | some name =>
    apply Shows.append (shows_item paths blocks rfl _)
      (shows_inside outer [name] (bodyNodes n) (depth + 1))
    exact ⟨rfl, hname, rfl, rfl, rfl⟩

theorem shows_members {outer : String} {owner : Owner} {n : Node} {depth : Nat}
    (hskipped : .skipped ∉ (members scope scopes outer owner n depth).1)
    (htruncated : .truncated ∉ (members scope scopes outer owner n depth).1) :
    ShowsAt paths blocks scope.file (members scope scopes outer owner n depth).1 (memberNodes n)
      (memberOpens n) := by
  rw [← List.flatMap_singleton' (memberNodes n)]
  unfold members memberOpens memberNodes bodyNodes at *
  cases hbody : n.field? "body" with
  | none => exact shows_nil
  | some body =>
    simp only [hbody] at hskipped htruncated ⊢
    split at hskipped
    case isTrue hdepth =>
      rw [if_pos hdepth] at htruncated
      exact absurd List.mem_cons_self htruncated
    case isFalse hdepth =>
      rw [if_neg hdepth]
      apply shows_flatMap
      intro m hm
      apply shows_memberSteps
      intro hmem
      apply hskipped
      exact List.mem_flatMap.2 ⟨m, hm, hmem⟩

theorem shows_implSteps {n : Node} {depth : Nat}
    (hskipped : .skipped ∉ implSteps scope scopes n depth)
    (htruncated : .truncated ∉ implSteps scope scopes n depth) :
    ShowsAt paths blocks scope.file (implSteps scope scopes n depth) (memberNodes n)
      (memberOpens n) := by
  cases htype : n.fieldText? "type" with
  | none =>
    unfold implSteps at hskipped
    rw [htype] at hskipped
    exact absurd List.mem_cons_self hskipped
  | some type =>
    obtain ⟨block, hsteps⟩ := implSteps_eq scopes depth htype
    rw [hsteps] at hskipped htruncated ⊢
    rw [← List.append_nil (memberNodes n), ← List.append_nil (memberOpens n)]
    apply Shows.append (shows_members scope scopes paths blocks _ _)
      (shows_impl paths blocks n block)
    · intro hmem
      exact hskipped (List.mem_append_left _ hmem)
    · intro hmem
      exact htruncated (List.mem_append_left _ hmem)

theorem shows_traitSteps {n : Node} {depth : Nat}
    (hskipped : .skipped ∉ traitSteps scope scopes n depth)
    (htruncated : .truncated ∉ traitSteps scope scopes n depth) :
    ShowsAt paths blocks scope.file (traitSteps scope scopes n depth) (memberNodes n ++ [n])
      (memberOpens n) := by
  unfold traitSteps at *
  cases hname : n.fieldText? "name" with
  | none =>
    rw [hname] at hskipped
    exact absurd List.mem_cons_self hskipped
  | some name =>
    rw [hname] at hskipped htruncated
    rw [← List.append_nil (memberOpens n)]
    apply Shows.append (shows_members scope scopes paths blocks _ _)
      (shows_item paths blocks rfl _)
    · intro hmem
      exact hskipped (List.mem_append_left _ hmem)
    · intro hmem
      exact htruncated (List.mem_append_left _ hmem)
    · exact ⟨rfl, hname, rfl, rfl, rfl⟩

theorem shows_typeSteps {n : Node} (hclean : .skipped ∉ typeSteps scope scopes n) :
    ShowsAt paths blocks scope.file (typeSteps scope scopes n) [n] [] := by
  unfold typeSteps at *
  cases hname : n.fieldText? "name" with
  | none =>
    rw [hname] at hclean
    exact absurd List.mem_cons_self hclean
  | some name =>
    apply shows_item paths blocks rfl
    obtain ⟨baseClasses, methods, heq⟩ := joinBlocks_eq paths blocks
      (Text.qualify scopes name separator)
      (classDecl scope n name (if n.kind = "enum_item" then .enum else .struct) [] [])
    rw [heq]
    exact ⟨rfl, hname, rfl, rfl, rfl⟩

theorem shows_moduleSteps (n : Node) (depth : Nat) :
    ShowsAt paths blocks scope.file (moduleSteps n depth) []
      (if (n.fieldText? "name").isSome then bodyNodes n else []) := by
  unfold moduleSteps
  cases n.fieldText? "name" with
  | none => exact shows_nil
  | some name => exact shows_inside name [] (bodyNodes n) (depth + 1)

theorem plan_eq (n : Node) (depth : Nat) :
    plan scope scopes n depth =
      if isFunction n then { steps := functionSteps scope scopes n depth }
      else if n.kind = "impl_item" then { steps := implSteps scope scopes n depth }
      else if n.kind = "trait_item" then { steps := traitSteps scope scopes n depth }
      else if isType n then { steps := typeSteps scope scopes n }
      else if n.kind = "mod_item" then { steps := moduleSteps n depth }
      else .descendOnly := by
  unfold plan
  split <;> simp_all [isFunction, isType]

theorem shows_plan {n : Node} {depth : Nat} (hclean : (plan scope scopes n depth).Clean) :
    ∃ opens, ShowsAt paths blocks scope.file (plan scope scopes n depth).steps (search.owns n)
        opens ∧
      (plan scope scopes n depth).opened n = search.opens n := by
  rw [plan_eq] at *
  unfold search Plan.opened
  simp only
  by_cases hfunction : isFunction n
  · simp only [if_pos hfunction] at *
    have hshows := shows_functionSteps scope scopes paths blocks hclean.1
    exact ⟨_, hshows, by simp [hshows.nodes_eq]⟩
  by_cases himpl : n.kind = "impl_item"
  · simp only [if_neg hfunction, if_pos himpl] at *
    have hshows := shows_implSteps scope scopes paths blocks hclean.1 hclean.2
    exact ⟨_, hshows, by simp [hshows.nodes_eq]⟩
  by_cases htrait : n.kind = "trait_item"
  · simp only [if_neg hfunction, if_neg himpl, if_pos htrait] at *
    have hshows := shows_traitSteps scope scopes paths blocks hclean.1 hclean.2
    exact ⟨_, hshows, by simp [hshows.nodes_eq]⟩
  by_cases htype : isType n
  · simp only [if_neg hfunction, if_neg himpl, if_neg htrait, if_pos htype] at *
    have hshows := shows_typeSteps scope scopes paths blocks hclean.1
    exact ⟨_, hshows, by simp [hshows.nodes_eq]⟩
  by_cases hmodule : n.kind = "mod_item"
  · simp only [if_neg hfunction, if_neg himpl, if_neg htrait, if_neg htype, if_pos hmodule] at *
    have hshows := shows_moduleSteps scope paths blocks n depth
    exact ⟨_, hshows, by simp [hshows.nodes_eq]⟩
  · simp only [if_neg hfunction, if_neg himpl, if_neg htrait, if_neg htype, if_neg hmodule]
    exact ⟨[], shows_nil, rfl⟩

end Plan

/--
The items that are recorded at a node.
-/
inductive Records (scope : Scope) (scopes : List String) (n : Node) (depth : Nat) :
    List Item → Prop
  | nothing : Records scope scopes n depth []
  | function (name : String) :
    Records scope scopes n depth [.function n (functionDecl scope scopes none n name)]
  | type (name path : String) (kind : ClassKind) :
    Records scope scopes n depth [.type n (classDecl scope n name kind [] []) path]
  | trait (name : String) (owner : Owner) (bounds : List String) :
    Records scope scopes n depth
      ((members scope scopes name owner n (depth + 1)).1.filterMap Step.item? ++
        [.trait n (classDecl scope n name .trait bounds
          (members scope scopes name owner n (depth + 1)).2)])
  | impl (outer : String) (owner : Owner) (block : ImplBlock)
    (hmethods : block.methods = (members scope scopes outer owner n (depth + 1)).2) :
    Records scope scopes n depth
      ((members scope scopes outer owner n (depth + 1)).1.filterMap Step.item? ++ [.impl n block])

theorem records_plan (scope : Scope) (scopes : List String) (n : Node) (depth : Nat) :
    Records scope scopes n depth (plan scope scopes n depth).items := by
  rw [plan_eq]
  unfold Plan.items
  by_cases hfunction : isFunction n
  · simp only [if_pos hfunction]
    unfold functionSteps
    cases n.fieldText? "name" with
    | none => exact .nothing
    | some name => exact .function name
  by_cases himpl : n.kind = "impl_item"
  · simp only [if_neg hfunction, if_pos himpl]
    unfold implSteps
    cases n.fieldText? "type" with
    | none => exact .nothing
    | some type =>
      simp only [List.filterMap_append]
      exact .impl _ _ _ rfl
  by_cases htrait : n.kind = "trait_item"
  · simp only [if_neg hfunction, if_neg himpl, if_pos htrait]
    unfold traitSteps
    cases n.fieldText? "name" with
    | none => exact .nothing
    | some name =>
      simp only [List.filterMap_append]
      exact .trait name _ _
  by_cases htype : isType n
  · simp only [if_neg hfunction, if_neg himpl, if_neg htrait, if_pos htype]
    unfold typeSteps
    cases n.fieldText? "name" with
    | none => exact .nothing
    | some name => exact .type name _ _
  by_cases hmodule : n.kind = "mod_item"
  · simp only [if_neg hfunction, if_neg himpl, if_neg htrait, if_neg htype, if_pos hmodule]
    unfold moduleSteps
    cases n.fieldText? "name" with
    | none => exact .nothing
    | some name => exact .nothing
  · simp only [if_neg hfunction, if_neg himpl, if_neg htrait, if_neg htype, if_neg hmodule]
    exact .nothing

/--
As long as nothing is counted, a node has a record exactly if the search finds it.
-/
theorem exists_record_iff {scope : Scope} {starts : List Node}
    (hclean : Clean (traceAll plan scope starts)) (paths : List String) (blocks : List ImplBlock)
    (d : Node) :
    (∃ e ∈ (Extract.recorded (traceAll plan scope starts)).filterMap (Item.declared? paths blocks),
      e.Describes scope.file d) ↔ search.Finds starts d := by
  have hiff : (∃ item ∈ Extract.recorded (traceAll plan scope starts),
      ∃ e ∈ item.declared? paths blocks, e.Describes scope.file d) ↔ search.Finds starts d := by
    apply exists_describes_iff hclean lawful_search
    · intro scopes n depth hplan
      obtain ⟨_, _, hopened⟩ := shows_plan scope scopes paths blocks hplan
      exact hopened
    · intro scopes n depth hplan hd
      obtain ⟨_, hshows, _⟩ := shows_plan scope scopes paths blocks hplan
      exact hshows.described d hd
    · rintro scopes n depth hn hplan item hitem ⟨e, he, hdescribes⟩
      obtain ⟨_, hshows, _⟩ := shows_plan scope scopes paths blocks hplan
      exact ⟨n, hn, hshows.owned item hitem d ⟨e, he, hdescribes.node_eq⟩⟩
  rw [← hiff]
  constructor
  · rintro ⟨e, he, hdescribes⟩
    obtain ⟨item, hitem, he⟩ := List.mem_filterMap.1 he
    exact ⟨item, hitem, e, he, hdescribes⟩
  · rintro ⟨item, hitem, e, he, hdescribes⟩
    exact ⟨e, List.mem_filterMap.2 ⟨item, hitem, he⟩, hdescribes⟩

end Polyglot.Rust
