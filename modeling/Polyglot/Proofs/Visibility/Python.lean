import Polyglot.Extract.Linkage.Python
import Polyglot.Proofs.Declarations.Search.Python
import Polyglot.Proofs.Visibility.Basic

/-!
This module contains the visibility of the functions and classes of Python, which is that of the
name.
-/

namespace Polyglot.Python

open Extract

def topLevel (n : Node) : List TopLevel :=
  let d := undecorated n
  if d.isNamed ∧ (isFunction d ∨ d.kind = "class_definition") then
    (d.fieldText? "name").toList.map fun name => ⟨d, !isFunction d, name, isPublicName name⟩
  else []

theorem mem_topLevel {n : Node} {d : TopLevel} (hd : d ∈ topLevel n) :
    (isFunction d.node ∧ d.isType = false ∨ d.node.kind = "class_definition" ∧ d.isType = true) ∧
      d.node = undecorated n ∧ d.node.isNamed ∧ d.node.fieldText? "name" = some d.name ∧
      d.isPublic = isPublicName d.name := by
  unfold topLevel at hd
  simp only at hd
  split at hd
  case isFalse => cases hd
  case isTrue hkind =>
    obtain ⟨name, hname, rfl⟩ := List.mem_map.1 hd
    refine ⟨?_, rfl, hkind.1, Option.mem_toList.1 hname, rfl⟩
    rcases hkind.2 with hfunction | hclass
    · exact .inl ⟨hfunction, by simp [hfunction]⟩
    · exact .inr ⟨hclass, by simp [isFunction, hclass]⟩

theorem definitionExport?_eq {n : Node} {name : String}
    (hkind : ["function_definition", "class_definition"].contains (undecorated n).kind)
    (hname : (undecorated n).fieldText? "name" = some name) :
    definitionExport? n = if isPublicName name then
      some { source := none, bindings := [.same name], line := n.line, isTypeOnly := false }
      else none := by
  unfold definitionExport?
  simp only [hkind, guard, hname, Option.bind_eq_bind, Option.bind_some]
  cases isPublicName name with
  | false => rfl
  | true => rfl

theorem exports_eq {root : Node} (h : ∀ n ∈ root.namedChildren, listing? n = none) :
    exports root = root.namedChildren.filterMap definitionExport? := by
  have hlisted (ns : List Node) (hns : ∀ n ∈ ns, listing? n = none) :
      ns.foldl addListing none = none := by
    induction ns with
    | nil => rfl
    | cons n ns ih =>
      rw [List.forall_mem_cons] at hns
      rw [List.foldl_cons, addListing, hns.1]
      exact ih hns.2
  unfold exports listed?
  rw [hlisted _ h]

theorem listed_iff_isPublic {n : Node} {d : TopLevel} (hd : d ∈ topLevel n) :
    (∃ e ∈ definitionExport? n, e.source = none ∧ .same d.name ∈ e.bindings) ↔ d.isPublic := by
  obtain ⟨hkind, hnode, _, hname, hpublic⟩ := mem_topLevel hd
  have hexport : definitionExport? n = if isPublicName d.name then
      some { source := none, bindings := [.same d.name], line := n.line, isTypeOnly := false }
      else none := by
    apply definitionExport?_eq
    · rw [← hnode]
      unfold isFunction at hkind
      grind
    · rw [← hnode]
      exact hname
  rw [hexport, hpublic]
  cases isPublicName d.name with
  | false => simp
  | true => simp

/--
A record has the name of its node and the visibility of that name.
-/
def Flagged (e : Declared) : Prop :=
  e.node.fieldText? "name" = some e.name ∧ e.isExported = isPublicName e.name

section Plan

variable (scope : Scope) (scopes : List String) (depth : Nat)

theorem flagged_memberSteps (className : String) (n : Node) :
    ∀ e ∈ (memberSteps scope scopes className depth n).filterMap Step.item?, Flagged e := by
  unfold memberSteps
  split
  case isFalse => exact List.forall_mem_nil _
  case isTrue =>
    unfold methodSteps
    cases hname : (undecorated n).fieldText? "name" with
    | none => exact List.forall_mem_nil _
    | some name => exact List.forall_mem_singleton.2 ⟨hname, rfl⟩

theorem flagged_plan (n : Node) : ∀ e ∈ (plan scope scopes n depth).items, Flagged e := by
  rw [plan_eq]
  unfold Plan.items
  by_cases hfunction : isFunction n
  · simp only [if_pos hfunction]
    unfold functionSteps
    cases hname : n.fieldText? "name" with
    | none => exact List.forall_mem_nil _
    | some name => exact List.forall_mem_singleton.2 ⟨hname, rfl⟩
  by_cases hclass : n.kind = "class_definition"
  · simp only [if_neg hfunction, if_pos hclass]
    unfold classSteps
    cases hname : n.fieldText? "name" with
    | none => exact List.forall_mem_nil _
    | some name =>
      simp only
      rw [List.filterMap_append, List.filterMap_flatMap]
      intro e he
      rcases List.mem_append.1 he with he | he
      · obtain ⟨m, _, he⟩ := List.mem_flatMap.1 he
        exact flagged_memberSteps scope scopes (depth + 1) name m e he
      · rw [List.mem_singleton.1 he]
        exact ⟨hname, rfl⟩
  · simp only [if_neg hfunction, if_neg hclass]
    exact List.forall_mem_nil _

theorem exists_item_of_mem_topLevel {n : Node} {d : TopLevel} (hd : d ∈ topLevel n) :
    ∃ e ∈ (plan scope scopes d.node depth).items, e.IsFor d ∧ e.name = d.name := by
  obtain ⟨hkind, _, _, hname, _⟩ := mem_topLevel hd
  rw [plan_eq]
  unfold Plan.items
  rcases hkind with ⟨hfunction, htype⟩ | ⟨hclass, htype⟩
  · simp only [if_pos hfunction, functionSteps, hname]
    exact ⟨_, List.mem_cons_self, ⟨rfl, htype.symm⟩, rfl⟩
  · have hfunction : ¬isFunction d.node := by simp [isFunction, hclass]
    simp only [if_neg hfunction, if_pos hclass, classSteps, hname, List.filterMap_append]
    exact ⟨_, List.mem_append_right _ List.mem_cons_self, ⟨rfl, htype.symm⟩, rfl⟩

theorem descend_plan {n : Node} (hfunction : ¬isFunction n) (hclass : n.kind ≠ "class_definition") :
    (plan scope scopes n depth).descend := by
  rw [plan_eq, if_neg hfunction, if_neg hclass]
  rfl

end Plan

section TopLevel

variable {scope : Scope} {root n : Node} {d : TopLevel}
  (hn : n ∈ root.namedChildren) (hd : d ∈ topLevel n)

include hd in
theorem isExported_eq {e : Declared} (he : e ∈ Extract.recorded (traceAll plan scope [root]))
    (hfor : e.IsFor d) : e.isExported = d.isPublic := by
  obtain ⟨_, _, _, hname, hpublic⟩ := mem_topLevel hd
  have hflagged := (cumulative_forall Flagged).recorded_traceAll
    (fun scopes n depth => flagged_plan scope scopes depth n) [root]
  obtain ⟨hself, hexported⟩ := hflagged e he
  rw [hfor.1, hname] at hself
  rw [hexported, hpublic, Option.some.inj hself]

include hn hd

theorem exists_comesTo (hroot : ["module", "ERROR"].contains root.kind)
    (hdepth : 3 ≤ scope.limits.maxTreeDepth) :
    ∃ depth ≤ 2, ComesTo plan scope [root] d.node depth := by
  obtain ⟨_, hnode, hnamed, _⟩ := mem_topLevel hd
  have hplain : ¬isFunction root ∧ root.kind ≠ "class_definition" := by
    unfold isFunction
    grind
  have hstatement : ComesTo plan scope [root] n 1 := by
    apply (ComesTo.start List.mem_cons_self).child (Nat.zero_le _) _ hn
    exact descend_plan scope [] 0 hplain.1 hplain.2
  unfold undecorated at hnode
  split at hnode
  case isFalse =>
    rw [hnode]
    exact ⟨1, by omega, hstatement⟩
  case isTrue hkind =>
    cases hfield : n.field? "definition" with
    | none =>
      rw [hnode, hfield]
      exact ⟨1, by omega, hstatement⟩
    | some c =>
      rw [hfield, Option.getD_some] at hnode
      rw [hnode] at hnamed ⊢
      refine ⟨2, by omega, hstatement.child (by omega) ?_ ?_⟩
      · apply descend_plan
        · simp [isFunction, hkind]
        · simp [hkind]
      · exact Node.mem_namedChildren_of_field hfield hnamed

theorem exists_record (hroot : ["module", "ERROR"].contains root.kind)
    (hdepth : 3 ≤ scope.limits.maxTreeDepth) :
    ∃ e ∈ Extract.recorded (traceAll plan scope [root]), e.IsFor d ∧ e.name = d.name := by
  obtain ⟨depth, hle, hcomes⟩ := exists_comesTo hn hd hroot hdepth
  obtain ⟨e, he, hfor⟩ := exists_item_of_mem_topLevel scope [] depth hd
  exact ⟨e, hcomes.items_subset (by omega) he, hfor⟩

end TopLevel

end Polyglot.Python
