import Polyglot.Extract.Linkage.TypeScript
import Polyglot.Proofs.Declarations.Search.TypeScript
import Polyglot.Proofs.Visibility.Basic

/-!
This module contains the visibility of the declarations of TypeScript and JavaScript. What an export
statement holds is exported, and a variable has the visibility of the statement that declares it.
-/

namespace Polyglot.TypeScript

open Extract

def isFunctionDeclaration (n : Node) : Bool :=
  ["function_declaration", "generator_function_declaration"].contains n.kind

def isTypeDeclaration (n : Node) : Bool :=
  ["class_declaration", "abstract_class_declaration", "interface_declaration",
    "enum_declaration"].contains n.kind

def isVariableDeclaration (n : Node) : Bool :=
  ["lexical_declaration", "variable_declaration"].contains n.kind

/--
What a variable declares that is bound to a function or to a class without a name of its own.
-/
def boundTopLevel? (isPublic : Bool) (declaring n : Node) : Option TopLevel :=
  match n.field? "name", n.field? "value" with
  | some name, some value =>
    if n.kind = "variable_declarator" ∧ name.kind = "identifier" then
      if isFunctionValue value then some ⟨declaring, false, name.text, isPublic⟩
      else if value.kind = "class" ∧ value.fieldText? "name" = none then
        some ⟨value, true, name.text, isPublic⟩
      else none
    else none
  | _, _ => none

def declaredBy (isPublic : Bool) (n : Node) : List TopLevel :=
  if isFunctionDeclaration n then (n.fieldText? "name").toList.map (⟨n, false, ·, isPublic⟩)
  else if isTypeDeclaration n then (n.fieldText? "name").toList.map (⟨n, true, ·, isPublic⟩)
  else if isVariableDeclaration n then n.namedChildren.filterMap (boundTopLevel? isPublic n)
  else []

/--
What a statement at the top level declares. A default export declares no variables.
-/
def topLevel (n : Node) : List TopLevel :=
  if n.kind = "export_statement" then
    ((n.field? "declaration").filter fun d =>
      d.isNamed && !(n.hasChildKind "default" && isVariableDeclaration d)).elim [] (declaredBy true)
  else declaredBy false n

/--
The ways in which a node declares something.
-/
inductive Declares (isPublic : Bool) (n : Node) : TopLevel → Prop
  | function {name : String} (hkind : isFunctionDeclaration n)
    (hname : n.fieldText? "name" = some name) : Declares isPublic n ⟨n, false, name, isPublic⟩
  | type {name : String} (hkind : isTypeDeclaration n) (hname : n.fieldText? "name" = some name) :
    Declares isPublic n ⟨n, true, name, isPublic⟩
  | boundFunction {c value : Node} {name : String} (hkind : isVariableDeclaration n)
    (hc : c ∈ n.namedChildren) (hdeclarator : c.kind = "variable_declarator")
    (hname : c.fieldText? "name" = some name) (hbound : construct c = .boundFunction name value) :
    Declares isPublic n ⟨n, false, name, isPublic⟩
  | boundClass {c value : Node} {name : String} (hkind : isVariableDeclaration n)
    (hc : c ∈ n.namedChildren) (hdeclarator : c.kind = "variable_declarator")
    (hname : c.fieldText? "name" = some name) (hbound : construct c = .boundClass name value)
    (hvalue : value.fieldText? "name" = none) : Declares isPublic n ⟨value, true, name, isPublic⟩

theorem declares_of_bound {isPublic : Bool} {n c : Node} {d : TopLevel}
    (hkind : isVariableDeclaration n) (hc : c ∈ n.namedChildren)
    (hd : boundTopLevel? isPublic n c = some d) : Declares isPublic n d := by
  unfold boundTopLevel? at hd
  split at hd
  case h_2 => cases hd
  case h_1 name value hname hvalue =>
    split at hd
    case isFalse => cases hd
    case isTrue hdeclarator =>
      have htext : c.fieldText? "name" = some name.text := by rw [Node.fieldText?, hname]; rfl
      have hconstruct : construct c =
          if isFunctionValue value then .boundFunction name.text value
          else if value.kind = "class" then .boundClass name.text value
          else .other := by
        simp only [construct, hdeclarator.1, hname, hvalue, hdeclarator.2, true_and]
      split at hd
      case isTrue hfunction =>
        cases hd
        rw [if_pos hfunction] at hconstruct
        exact .boundFunction hkind hc hdeclarator.1 htext hconstruct
      case isFalse hfunction =>
        split at hd
        case isFalse => cases hd
        case isTrue hclass =>
          cases hd
          rw [if_neg hfunction, if_pos hclass.1] at hconstruct
          exact .boundClass hkind hc hdeclarator.1 htext hconstruct hclass.2

theorem declares_of_mem {isPublic : Bool} {n : Node} {d : TopLevel}
    (hd : d ∈ declaredBy isPublic n) : Declares isPublic n d := by
  unfold declaredBy at hd
  split at hd
  case isTrue hkind =>
    obtain ⟨name, hname, rfl⟩ := List.mem_map.1 hd
    exact .function hkind (Option.mem_toList.1 hname)
  case isFalse =>
    split at hd
    case isTrue hkind =>
      obtain ⟨name, hname, rfl⟩ := List.mem_map.1 hd
      exact .type hkind (Option.mem_toList.1 hname)
    case isFalse =>
      split at hd
      case isFalse => cases hd
      case isTrue hkind =>
        obtain ⟨c, hc, hd⟩ := List.mem_filterMap.1 hd
        exact declares_of_bound hkind hc hd

theorem mem_topLevel {n : Node} {d : TopLevel} (hd : d ∈ topLevel n) :
    (∃ c, n.kind = "export_statement" ∧ n.field? "declaration" = some c ∧ c.isNamed ∧
        ¬(n.hasChildKind "default" ∧ isVariableDeclaration c) ∧ Declares true c d) ∨
      n.kind ≠ "export_statement" ∧ Declares false n d := by
  unfold topLevel at hd
  split at hd
  case isFalse hkind => exact .inr ⟨hkind, declares_of_mem hd⟩
  case isTrue hkind =>
    cases hfield : (n.field? "declaration").filter fun d =>
        d.isNamed && !(n.hasChildKind "default" && isVariableDeclaration d) with
    | none =>
      rw [hfield] at hd
      cases hd
    | some c =>
      rw [hfield] at hd
      obtain ⟨hc, hplain⟩ := Option.filter_eq_some_iff.1 hfield
      simp only [Bool.and_eq_true, Bool.not_eq_true', Bool.and_eq_false_imp] at hplain
      exact .inl ⟨c, hkind, hc, hplain.1, by grind, declares_of_mem hd⟩

namespace Declares

variable {isPublic : Bool} {n : Node} {d : TopLevel} (h : Declares isPublic n d)

include h

theorem isPublic_eq : d.isPublic = isPublic := by
  cases h with
  | _ => rfl

theorem kind_ne :
    n.kind ≠ "export_statement" ∧ n.kind ≠ "expression_statement" ∧ n.kind ≠ "identifier" := by
  have hkind : isFunctionDeclaration n ∨ isTypeDeclaration n ∨ isVariableDeclaration n := by
    cases h with
    | function hkind => exact .inl hkind
    | type hkind => exact .inr (.inl hkind)
    | boundFunction hkind => exact .inr (.inr hkind)
    | boundClass hkind => exact .inr (.inr hkind)
  unfold isFunctionDeclaration isTypeDeclaration isVariableDeclaration at hkind
  grind

theorem fieldText?_name (hkind : ¬isVariableDeclaration n) :
    n.fieldText? "name" = some d.name := by
  cases h with
  | function _ hname => exact hname
  | type _ hname => exact hname
  | boundFunction hvariable => exact absurd hvariable hkind
  | boundClass hvariable => exact absurd hvariable hkind

theorem name_mem_declaredNames : d.name ∈ declaredNames n := by
  by_cases hkind : isVariableDeclaration n
  · have hnames : declaredNames n =
        (n.namedChildren.filter (·.kind == "variable_declarator")).filterMap
          (·.fieldText? "name") := by
      unfold isVariableDeclaration at hkind
      unfold declaredNames
      grind
    rw [hnames, List.mem_filterMap]
    cases h with
    | function hfunction => unfold isFunctionDeclaration isVariableDeclaration at *; grind
    | type htype => unfold isTypeDeclaration isVariableDeclaration at *; grind
    | @boundFunction c _ _ _ hc hdeclarator hname =>
      exact ⟨c, List.mem_filter.2 ⟨hc, beq_iff_eq.2 hdeclarator⟩, hname⟩
    | @boundClass c _ _ _ hc hdeclarator hname =>
      exact ⟨c, List.mem_filter.2 ⟨hc, beq_iff_eq.2 hdeclarator⟩, hname⟩
  · have hnames : declaredNames n = (n.fieldText? "name").toList := by
      unfold isVariableDeclaration at hkind
      unfold declaredNames
      grind
    rw [hnames, h.fieldText?_name hkind]
    exact List.mem_singleton_self _

end Declares

theorem exists_exportBindings? {n c : Node} {d : TopLevel} (hc : n.field? "declaration" = some c)
    (hplain : ¬(n.hasChildKind "default" ∧ isVariableDeclaration c)) (hd : Declares true c d) :
    ∃ bindings, exportBindings? n = some bindings ∧ ∃ b ∈ bindings, b.imported = d.name := by
  unfold exportBindings?
  by_cases hdefault : n.hasChildKind "default"
  · have htarget : defaultTarget? n = some d.name := by
      unfold defaultTarget?
      rw [hc, Option.some_or, Option.bind_some, if_neg hd.kind_ne.2.2]
      exact hd.fieldText?_name fun hvariable => hplain ⟨hdefault, hvariable⟩
    rw [if_pos hdefault, htarget]
    exact ⟨_, rfl, _, List.mem_singleton_self _, rfl⟩
  · rw [if_neg hdefault, hc]
    exact ⟨_, rfl, .same d.name, List.mem_map_of_mem hd.name_mem_declaredNames, rfl⟩

theorem listed_iff_isPublic {n : Node} {d : TopLevel} (hd : d ∈ topLevel n) :
    (∃ e ∈ exportOf? n, ∃ b ∈ e.bindings, b.imported = d.name) ↔ d.isPublic := by
  rcases mem_topLevel hd with ⟨c, hkind, hc, _, hplain, hdeclares⟩ | ⟨hkind, hdeclares⟩
  · rw [hdeclares.isPublic_eq]
    obtain ⟨bindings, hbindings, hlisted⟩ := exists_exportBindings? hc hplain hdeclares
    have hexport : exportOf? n = statementExport? n := by
      simp only [exportOf?, hkind]
    rw [hexport, statementExport?, hbindings]
    exact ⟨fun _ => rfl, fun _ => ⟨_, rfl, hlisted⟩⟩
  · rw [hdeclares.isPublic_eq]
    have hexport : exportOf? n = none := by
      unfold exportOf?
      split
      case h_1 hexport => exact absurd hexport hkind
      case h_2 hexpression => exact absurd hexpression hdeclares.kind_ne.2.1
      case h_3 => rfl
    rw [hexport]
    simp

theorem declaringOf_eq {n c : Node} (hc : c ∈ n.namedChildren) : declaringOf c = n := by
  rw [declaringOf, Node.parent?_of_mem_children (Node.mem_children_of_mem_namedChildren hc)]
  rfl

theorem eq_of_construct {c c' value : Node} {name name' : String}
    (h : construct c = .boundClass name value) (h' : construct c' = .boundClass name' value) :
    c = c' := by
  -- Both have the class for a child, and a node has one parent.
  have hparent := Node.parent?_of_mem_children
    (List.mem_of_find?_eq_some (field?_value_of_construct (.inr h)))
  have hparent' := Node.parent?_of_mem_children
    (List.mem_of_find?_eq_some (field?_value_of_construct (.inr h')))
  exact Option.some.inj (hparent.symm.trans hparent')

/--
A record has the visibility that the parent of its node gives it. The members of types have one of
their own, and a class that is bound to a variable has that of the variable.
-/
def Flagged : Declared → Prop
  | .function n decl => decl.isExported = isExportWrapped n ∨ (member? n).isSome
  | .type n decl =>
    decl.isExported = isExportWrapped n ∧ n.fieldText? "name" = some decl.name ∨
      ∃ c name, construct c = .boundClass name n ∧ decl.isExported = isExportWrapped (declaringOf c)

section Plan

variable (scope : Scope) (scopes : List String) (depth : Nat)

theorem flagged_memberSteps {owner : String} {n : Node} {m : Member} (hm : member? n = some m) :
    ∀ e ∈ (memberSteps scope scopes owner depth m).filterMap Step.item?, Flagged e := by
  have hmember : (member? m.declaring).isSome := by
    rw [(not_isDeclaration_of_member? hm).1, hm]
    rfl
  unfold memberSteps
  cases m.name with
  | none => exact List.forall_mem_nil _
  | some name => exact List.forall_mem_singleton.2 (.inr hmember)

theorem flagged_signatureSteps {owner : String} {n : Node} (hkind : n.kind = "method_signature") :
    ∀ e ∈ (signatureSteps scope scopes owner n).filterMap Step.item?, Flagged e := by
  have hmember : (member? n).isSome := by
    simp only [member?, hkind]
    rfl
  unfold signatureSteps
  cases n.fieldText? "name" with
  | none => exact List.forall_mem_nil _
  | some name => exact List.forall_mem_singleton.2 (.inr hmember)

theorem flagged_classSteps {n : Node} {boundName : Option String} {isExported : Bool}
    (h : ∀ decl, (n.fieldText? "name").or boundName = some decl.name →
      decl.isExported = isExported → Flagged (.type n decl)) :
    ∀ e ∈ (classSteps scope scopes n boundName isExported depth).filterMap Step.item?,
      Flagged e := by
  unfold classSteps
  cases hname : (n.fieldText? "name").or boundName with
  | none => exact List.forall_mem_nil _
  | some name =>
    simp only
    rw [List.filterMap_append, List.filterMap_flatMap]
    intro e he
    rcases List.mem_append.1 he with he | he
    · obtain ⟨m, hm, he⟩ := List.mem_flatMap.1 he
      obtain ⟨k, _, hm⟩ := List.mem_filterMap.1 hm
      exact flagged_memberSteps scope scopes depth hm e he
    · rw [List.mem_singleton.1 he]
      exact h _ hname rfl

theorem flagged_interfaceSteps (n : Node) :
    ∀ e ∈ (interfaceSteps scope scopes n).filterMap Step.item?, Flagged e := by
  unfold interfaceSteps
  cases hname : n.fieldText? "name" with
  | none => exact List.forall_mem_nil _
  | some name =>
    simp only
    rw [List.filterMap_append, List.filterMap_flatMap]
    intro e he
    rcases List.mem_append.1 he with he | he
    · obtain ⟨m, hm, he⟩ := List.mem_flatMap.1 he
      exact flagged_signatureSteps scope scopes (beq_iff_eq.1 (List.mem_filter.1 hm).2) e he
    · rw [List.mem_singleton.1 he]
      exact .inl ⟨rfl, hname⟩

theorem flagged_plan (n : Node) : ∀ e ∈ (plan scope scopes n depth).items, Flagged e := by
  rw [plan_eq]
  unfold Plan.items
  cases hconstruct : construct n with
  | function =>
    cases n.fieldText? "name" with
    | none => exact List.forall_mem_nil _
    | some name => exact List.forall_mem_singleton.2 (.inl rfl)
  | boundFunction name value => exact List.forall_mem_singleton.2 (.inl rfl)
  | boundClass name value =>
    apply flagged_classSteps
    intro decl _ hexported
    exact .inr ⟨n, name, hconstruct, hexported⟩
  | classType =>
    apply flagged_classSteps
    intro decl hname hexported
    rw [Option.or_none] at hname
    exact .inl ⟨hexported, hname⟩
  | interface => apply flagged_interfaceSteps
  | enum =>
    unfold enumSteps
    cases hname : n.fieldText? "name" with
    | none => exact List.forall_mem_nil _
    | some name => exact List.forall_mem_singleton.2 (.inl ⟨rfl, hname⟩)
  | other => exact List.forall_mem_nil _

end Plan

theorem exists_item_classSteps {scope : Scope} {scopes : List String} {n : Node}
    {boundName : Option String} {isExported : Bool} {depth : Nat} {d : TopLevel}
    (hname : (n.fieldText? "name").or boundName = some d.name) (hnode : n = d.node)
    (htype : true = d.isType) :
    ∃ e ∈ (classSteps scope scopes n boundName isExported depth).filterMap Step.item?,
      e.IsFor d ∧ e.name = d.name := by
  unfold classSteps
  rw [hname]
  simp only [List.filterMap_append]
  exact ⟨_, List.mem_append_right _ List.mem_cons_self, ⟨hnode, htype⟩, rfl⟩

theorem member?_eq_none {n : Node} (h : isFunctionDeclaration n ∨ isVariableDeclaration n) :
    member? n = none := by
  unfold isFunctionDeclaration isVariableDeclaration at h
  unfold member?
  grind

namespace Declares

variable {isPublic : Bool} {n : Node} {d : TopLevel} (h : Declares isPublic n d)

include h

theorem isExported_eq (hwrapped : isExportWrapped n = isPublic) {e : Declared} (he : Flagged e)
    (hfor : e.IsFor d) : e.isExported = isPublic := by
  have hfunction {decl : FunctionDecl} (hmember : member? n = none)
      (he : Flagged (.function n decl)) : decl.isExported = isPublic := by
    rw [← hwrapped]
    apply he.resolve_right
    simp [hmember]
  obtain ⟨hnode, htype⟩ := hfor
  cases h with
  | function hkind hname =>
    cases e with
    | type m decl => cases htype
    | function m decl =>
      obtain rfl : m = n := hnode
      exact hfunction (member?_eq_none (.inl hkind)) he
  | boundFunction hkind =>
    cases e with
    | type m decl => cases htype
    | function m decl =>
      obtain rfl : m = n := hnode
      exact hfunction (member?_eq_none (.inr hkind)) he
  | type hkind hname =>
    cases e with
    | function m decl => cases htype
    | type m decl =>
      obtain rfl : m = n := hnode
      rcases he with ⟨hexported, _⟩ | ⟨c, name, hbound, _⟩
      · exact hexported.trans hwrapped
      · have hclass := value_of_construct.2 hbound
        simp [isTypeDeclaration, hclass] at hkind
  | @boundClass c value name hkind hc hdeclarator hname hbound hvalue =>
    cases e with
    | function m decl => cases htype
    | type m decl =>
      obtain rfl : m = value := hnode
      -- A class without a name has a record only through the variable it is bound to.
      rcases he with ⟨_, hown⟩ | ⟨c', name', hbound', hexported⟩
      · rw [hvalue] at hown
        cases hown
      · rw [← eq_of_construct hbound hbound', declaringOf_eq hc] at hexported
        exact hexported.trans hwrapped

theorem exists_item (scope : Scope) :
    ∃ m, (m = n ∨ isVariableDeclaration n ∧ m ∈ n.namedChildren) ∧
      ∀ scopes depth, ∃ e ∈ (plan scope scopes m depth).items, e.IsFor d ∧ e.name = d.name := by
  cases h with
  | function hkind hname =>
    refine ⟨n, .inl rfl, fun scopes depth => ?_⟩
    have hconstruct : construct n = .function := by
      unfold isFunctionDeclaration at hkind
      unfold construct
      grind
    rw [plan_eq, hconstruct, hname]
    exact ⟨_, List.mem_cons_self, ⟨rfl, rfl⟩, rfl⟩
  | type hkind hname =>
    refine ⟨n, .inl rfl, fun scopes depth => ?_⟩
    have hconstruct :
        construct n = .classType ∨ construct n = .interface ∨ construct n = .enum := by
      unfold isTypeDeclaration at hkind
      unfold construct
      grind
    rw [plan_eq]
    unfold Plan.items
    rcases hconstruct with hconstruct | hconstruct | hconstruct
    · rw [hconstruct]
      apply exists_item_classSteps
      · rw [hname]
        rfl
      · rfl
      · rfl
    · simp only [hconstruct, interfaceSteps, hname, List.filterMap_append]
      exact ⟨_, List.mem_append_right _ List.mem_cons_self, ⟨rfl, rfl⟩, rfl⟩
    · simp only [hconstruct, enumSteps, hname]
      exact ⟨_, List.mem_cons_self, ⟨rfl, rfl⟩, rfl⟩
  | boundFunction hkind hc hdeclarator hname hbound =>
    refine ⟨_, .inr ⟨hkind, hc⟩, fun scopes depth => ?_⟩
    rw [plan_eq, hbound]
    exact ⟨_, List.mem_cons_self, ⟨declaringOf_eq hc, rfl⟩, rfl⟩
  | boundClass hkind hc hdeclarator hname hbound hvalue =>
    refine ⟨_, .inr ⟨hkind, hc⟩, fun scopes depth => ?_⟩
    rw [plan_eq, hbound]
    apply exists_item_classSteps
    · rw [hvalue]
      rfl
    · rfl
    · rfl

end Declares

theorem descend_plan {scope : Scope} {scopes : List String} {n : Node} {depth : Nat}
    (h : ["program", "ERROR", "export_statement"].contains n.kind ∨ isVariableDeclaration n) :
    (plan scope scopes n depth).descend := by
  have hother : construct n = .other := by
    unfold isVariableDeclaration at h
    unfold construct
    grind
  rw [plan_eq, hother]
  rfl

section TopLevel

variable {scope : Scope} {root n : Node} {d : TopLevel}
  (hroot : ["program", "ERROR"].contains root.kind) (hdepth : 3 ≤ scope.limits.maxTreeDepth)
  (hn : n ∈ root.namedChildren) (hd : d ∈ topLevel n)

include hroot hdepth hn hd

theorem exists_declares : ∃ c, Declares d.isPublic c d ∧ isExportWrapped c = d.isPublic ∧
    ∃ depth ≤ 2, ComesTo plan scope [root] c depth := by
  have hstatement : ComesTo plan scope [root] n 1 := by
    apply (ComesTo.start List.mem_cons_self).child (Nat.zero_le _) _ hn
    apply descend_plan
    grind
  rcases mem_topLevel hd with ⟨c, hkind, hfield, hnamed, _, hdeclares⟩ | ⟨hkind, hdeclares⟩
  · rw [hdeclares.isPublic_eq]
    have hc := Node.mem_namedChildren_of_field hfield hnamed
    refine ⟨c, hdeclares, ?_, 2, by omega, ?_⟩
    · have hparent := Node.parentKind?_of_mem_children (List.mem_of_find?_eq_some hfield)
      simp [isExportWrapped, hparent, hkind]
    · apply hstatement.child (by omega) _ hc
      apply descend_plan
      simp [hkind]
  · rw [hdeclares.isPublic_eq]
    refine ⟨n, hdeclares, ?_, 1, by omega, hstatement⟩
    have hparent := Node.parentKind?_of_mem_children (Node.mem_children_of_mem_namedChildren hn)
    rw [isExportWrapped, hparent]
    grind

theorem exists_record :
    ∃ e ∈ Extract.recorded (traceAll plan scope [root]), e.IsFor d ∧ e.name = d.name := by
  obtain ⟨c, hdeclares, _, depth, hle, hcomes⟩ := exists_declares hroot hdepth hn hd
  obtain ⟨m, hm, hitems⟩ := hdeclares.exists_item scope
  have hcomes : ∃ depth ≤ 3, ComesTo plan scope [root] m depth := by
    rcases hm with rfl | ⟨hkind, hm⟩
    · exact ⟨depth, by omega, hcomes⟩
    · exact ⟨depth + 1, by omega, hcomes.child (by omega) (descend_plan (.inr hkind)) hm⟩
  obtain ⟨depth, hle, hcomes⟩ := hcomes
  obtain ⟨e, he, hfor⟩ := hitems [] depth
  exact ⟨e, hcomes.items_subset (by omega) he, hfor⟩

theorem isExported_eq {e : Declared} (he : e ∈ Extract.recorded (traceAll plan scope [root]))
    (hfor : e.IsFor d) : e.isExported = d.isPublic := by
  obtain ⟨c, hdeclares, hwrapped, _⟩ := exists_declares hroot hdepth hn hd
  have hflagged := (cumulative_forall Flagged).recorded_traceAll
    (fun scopes n depth => flagged_plan scope scopes depth n) [root]
  exact hdeclares.isExported_eq hwrapped (hflagged e he) hfor

end TopLevel

end Polyglot.TypeScript
