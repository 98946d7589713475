import Polyglot.Extract.Linkage.Rust
import Polyglot.Proofs.Declarations.Search.Rust
import Polyglot.Proofs.Visibility.Basic

/-!
This module contains the visibility of the items of Rust, which is written at the item. The members
of traits and impl blocks may have another one, but they never stand at the top level.
-/

namespace Polyglot.Rust

open Extract

/--
The declaration that an item at the top level makes.
-/
def topLevel (n : Node) : List TopLevel :=
  if isFunction n then (n.fieldText? "name").toList.map (⟨n, false, ·, isPub n⟩)
  else if isType n ∨ n.kind = "trait_item" then
    (n.fieldText? "name").toList.map (⟨n, true, ·, isPub n⟩)
  else []

theorem mem_topLevel {n : Node} {d : TopLevel} (hd : d ∈ topLevel n) :
    (isFunction n ∧ d.isType = false ∨ (isType n ∨ n.kind = "trait_item") ∧ d.isType = true) ∧
      n.fieldText? "name" = some d.name ∧ d.node = n ∧ d.isPublic = isPub n := by
  unfold topLevel at hd
  split at hd
  case isTrue hfunction =>
    obtain ⟨name, hname, rfl⟩ := List.mem_map.1 hd
    exact ⟨.inl ⟨hfunction, rfl⟩, Option.mem_toList.1 hname, rfl, rfl⟩
  case isFalse =>
    split at hd
    case isTrue htype =>
      obtain ⟨name, hname, rfl⟩ := List.mem_map.1 hd
      exact ⟨.inr ⟨htype, rfl⟩, Option.mem_toList.1 hname, rfl, rfl⟩
    case isFalse => cases hd

theorem exportsOf_eq {n : Node} (h : isFunction n ∨ isType n ∨ n.kind = "trait_item") :
    exportsOf n = if isPub n then exportByName n else [] := by
  have hkind : n.kind ≠ "use_declaration" ∧ n.kind ≠ "macro_definition" ∧
      exportableKinds.contains n.kind := by
    unfold isFunction isType at h
    unfold exportableKinds
    grind
  obtain ⟨huse, hmacro, hexportable⟩ := hkind
  unfold exportsOf
  rw [if_neg fun h => huse h.1]
  cases isPub n with
  | false => rw [if_neg fun h => Bool.false_ne_true h.2, if_neg fun h => hmacro h.1]; rfl
  | true => rw [if_pos ⟨hexportable, rfl⟩]; rfl

theorem listed_iff_isPublic {n : Node} {d : TopLevel} (hd : d ∈ topLevel n) :
    (∃ e ∈ exportsOf n, e.source = none ∧ .same d.name ∈ e.bindings) ↔ d.isPublic := by
  obtain ⟨hkind, hname, _, hpublic⟩ := mem_topLevel hd
  have hexports : exportsOf n = if isPub n then exportByName n else [] := by
    apply exportsOf_eq
    rcases hkind with ⟨h, _⟩ | ⟨h, _⟩
    · exact .inl h
    · exact .inr h
  rw [hexports, hpublic]
  cases isPub n with
  | false => simp
  | true => simp [exportByName, hname]

/--
A record has the visibility that is written at its node, if this is not a member of something.
-/
def Item.Flagged : Item → Prop
  | function n decl => decl.isExported = isPub n ∨ (n.parent?.bind Node.parent?).isSome
  | type n decl _ => decl.isExported = isPub n
  | trait n decl => decl.isExported = isPub n
  | impl _ _ => True

section Plan

variable (scope : Scope) (scopes : List String) (depth : Nat)

theorem flagged_members (outer : String) (owner : Owner) (n : Node) :
    ∀ item ∈ (members scope scopes outer owner n depth).1.filterMap Step.item?, item.Flagged := by
  unfold members
  cases hbody : n.field? "body" with
  | none => exact List.forall_mem_nil _
  | some body =>
    simp only
    split
    case isTrue => exact List.forall_mem_nil _
    case isFalse =>
      rw [List.filterMap_flatMap]
      intro item hitem
      obtain ⟨m, hm, hitem⟩ := List.mem_flatMap.1 hitem
      -- A member has a body for its parent, so it never stands at the top level.
      have hparent := Node.parent?_of_mem_children
        (Node.mem_children_of_mem_namedChildren (List.mem_filter.1 hm).1)
      have hbody := Node.parent?_of_mem_children (List.mem_of_find?_eq_some hbody)
      unfold memberSteps at hitem
      cases hname : m.fieldText? "name" with
      | none =>
        rw [hname] at hitem
        cases hitem
      | some name =>
        rw [hname] at hitem
        rw [List.mem_singleton.1 hitem]
        apply Or.inr
        rw [hparent, Option.bind_some, hbody]
        rfl

theorem flagged_append_members {outer : String} {owner : Owner} {n : Node} {item : Item}
    (h : item.Flagged) :
    ∀ other ∈ (members scope scopes outer owner n depth).1.filterMap Step.item? ++ [item],
      other.Flagged := by
  intro other hother
  rcases List.mem_append.1 hother with hother | hother
  · exact flagged_members scope scopes depth outer owner n other hother
  · rwa [List.mem_singleton.1 hother]

theorem exists_item_of_mem_topLevel {n : Node} {d : TopLevel} (hd : d ∈ topLevel n) :
    ∃ item ∈ (plan scope scopes n depth).items, ∀ paths blocks,
      ∃ e, item.declared? paths blocks = some e ∧ e.IsFor d ∧ e.name = d.name := by
  obtain ⟨hkind, hname, hnode, _⟩ := mem_topLevel hd
  rw [plan_eq]
  unfold Plan.items
  rcases hkind with ⟨hfunction, htype⟩ | ⟨hkind, htype⟩
  · simp only [if_pos hfunction, functionSteps, hname]
    refine ⟨_, List.mem_cons_self, fun paths blocks => ⟨_, rfl, ⟨hnode.symm, htype.symm⟩, rfl⟩⟩
  have hother : ¬isFunction n ∧ n.kind ≠ "impl_item" ∧ (n.kind ≠ "trait_item" → isType n) := by
    unfold isFunction isType at *
    grind
  by_cases htrait : n.kind = "trait_item"
  · simp only [if_neg hother.1, if_neg hother.2.1, if_pos htrait, traitSteps, hname,
      List.filterMap_append]
    refine ⟨_, List.mem_append_right _ List.mem_cons_self, fun paths blocks => ?_⟩
    exact ⟨_, rfl, ⟨hnode.symm, htype.symm⟩, rfl⟩
  · simp only [if_neg hother.1, if_neg hother.2.1, if_neg htrait, if_pos (hother.2.2 htrait),
      typeSteps, hname]
    refine ⟨_, List.mem_cons_self, fun paths blocks => ⟨_, rfl, ⟨hnode.symm, htype.symm⟩, ?_⟩⟩
    obtain ⟨baseClasses, methods, hjoin⟩ := joinBlocks_eq paths blocks
      (Text.qualify scopes d.name separator) (classDecl scope n d.name
        (if n.kind = "enum_item" then .enum else .struct) [] [])
    exact congrArg ClassDecl.name hjoin

variable {scope scopes depth}

theorem Records.flagged {n : Node} {items : List Item} (h : Records scope scopes n depth items) :
    ∀ item ∈ items, item.Flagged := by
  cases h with
  | nothing => exact List.forall_mem_nil _
  | function name => exact List.forall_mem_singleton.2 (.inl rfl)
  | type name path kind => exact List.forall_mem_singleton.2 rfl
  | trait name owner bounds => exact flagged_append_members scope scopes _ rfl
  | impl outer owner block _ => exact flagged_append_members scope scopes _ trivial

end Plan

theorem Item.Flagged.isExported_eq {item : Item} (h : item.Flagged) {paths : List String}
    {blocks : List ImplBlock} {e : Declared} (he : item.declared? paths blocks = some e)
    (hnode : (e.node.parent?.bind Node.parent?) = none) : e.isExported = isPub e.node := by
  cases item with
  | function n decl =>
    cases he
    rcases h with h | h
    · exact h
    · have hnode : n.parent?.bind Node.parent? = none := hnode
      rw [hnode] at h
      cases h
  | type n decl path =>
    cases he
    obtain ⟨baseClasses, methods, hjoin⟩ := joinBlocks_eq paths blocks path decl
    simp only [Declared.isExported, Declared.node, hjoin]
    exact h
  | trait n decl =>
    cases he
    exact h
  | impl n block => cases he

section TopLevel

variable {scope : Scope} {root n : Node} {d : TopLevel} (paths : List String)
  (blocks : List ImplBlock) (hn : n ∈ root.namedChildren) (hd : d ∈ topLevel n)

include hn hd

theorem exists_record :
    ∃ e ∈ (Extract.recorded (traceAll plan scope root.namedChildren)).filterMap
      (Item.declared? paths blocks), e.IsFor d ∧ e.name = d.name := by
  obtain ⟨item, hitem, hdeclared⟩ := exists_item_of_mem_topLevel scope [] 0 hd
  obtain ⟨e, he, hfor⟩ := hdeclared paths blocks
  have hmem := (ComesTo.start hn).items_subset (Nat.zero_le _) hitem
  exact ⟨e, List.mem_filterMap.2 ⟨item, hmem, he⟩, hfor⟩

theorem isExported_eq (hroot : root.parent? = none) {e : Declared}
    (he : e ∈ (Extract.recorded (traceAll plan scope root.namedChildren)).filterMap
      (Item.declared? paths blocks)) (hfor : e.IsFor d) : e.isExported = d.isPublic := by
  obtain ⟨_, _, hnode, hpublic⟩ := mem_topLevel hd
  obtain ⟨item, hitem, he⟩ := List.mem_filterMap.1 he
  have hflagged := (cumulative_forall Item.Flagged).recorded_traceAll
    (fun scopes n depth => (records_plan scope scopes n depth).flagged) root.namedChildren
  have hself : e.node = n := hfor.1.trans hnode
  have hparent := Node.parent?_of_mem_children (Node.mem_children_of_mem_namedChildren hn)
  rw [hpublic, ← hself]
  apply (hflagged item hitem).isExported_eq he
  rw [hself, hparent, Option.bind_some, hroot]

end TopLevel

end Polyglot.Rust
