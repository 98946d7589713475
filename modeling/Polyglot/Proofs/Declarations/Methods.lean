import Polyglot.Extract.Facts
import Polyglot.Proofs.Declarations.Coverage
import Polyglot.Proofs.Declarations.Records

/-!
This module contains how the methods that a class lists and the functions that are recorded as
methods fit together. In TypeScript, JavaScript and Python they are the same names, as often. In
Rust every name that a type or a trait lists is that of a method, since it comes from a trait or
from an impl block of the file.
-/

namespace Polyglot

namespace Declarations

/--
The names of the functions that have the class `c`.
-/
def methodNames (decls : Declarations) (c : String) : List String :=
  (decls.functions.filter (·.className == some c)).map (·.name)

/--
The names that the classes called `c` list as their methods.
-/
def listedNames (decls : Declarations) (c : String) : List String :=
  (decls.classes.filter (·.name == c)).flatMap (·.methods)

end Declarations

namespace Extract

namespace Declared

def IsMethodOf (owner : String) : Declared → Prop
  | function _ decl => decl.className = some owner ∧ decl.isMethod
  | type _ _ => False

/--
What is recorded for a member of a class: a method with the given name, or nothing.
-/
inductive OfMember (owner : String) : List Declared → Option String → Prop
  | nothing : OfMember owner [] none
  | method (node : Node) (decl : FunctionDecl) (howner : decl.className = some owner)
      (hmethod : decl.isMethod) : OfMember owner [.function node decl] (some decl.name)

/--
What a plan records: nothing, a function that is no method, or a class behind the methods that it
lists.
-/
inductive Group : List Declared → Prop
  | nothing : Group []
  | function (node : Node) (decl : FunctionDecl) (hclass : decl.className = none) :
    Group [.function node decl]
  | type (members : List Declared) (node : Node) (decl : ClassDecl)
      (howned : ∀ e ∈ members, e.IsMethodOf decl.name)
      (hlisted : decl.methods = (members.filterMap function?).map (·.name)) :
    Group (members ++ [.type node decl])

theorem assemble_append (as bs : List Declared) :
    assemble (as ++ bs) =
      ⟨(assemble as).functions ++ (assemble bs).functions,
        (assemble as).classes ++ (assemble bs).classes⟩ := by
  unfold assemble
  rw [List.filterMap_append, List.filterMap_append]

/--
The methods that are recorded for each class are those that it lists.
-/
def Balanced (items : List Declared) : Prop :=
  ∀ c, ((assemble items).methodNames c).Perm ((assemble items).listedNames c)

theorem cumulative_balanced : Cumulative Balanced where
  nil := by
    intro c
    exact List.Perm.nil
  append has hbs := by
    intro c
    rw [assemble_append]
    unfold Declarations.methodNames Declarations.listedNames
    rw [List.filter_append, List.map_append, List.filter_append, List.flatMap_append]
    exact (has c).append (hbs c)
  perm hperm has := by
    intro c
    have hfunctions := (((hperm.filterMap function?).filter (·.className == some c)).map (·.name))
    have hclasses := (((hperm.filterMap type?).filter (·.name == c)).flatMap_right (·.methods))
    exact (hfunctions.symm.trans (has c)).trans hclasses

theorem classes_of_isMethodOf {members : List Declared} {owner : String}
    (h : ∀ e ∈ members, e.IsMethodOf owner) : members.filterMap type? = [] := by
  rw [List.filterMap_eq_nil_iff]
  intro e he
  cases e with
  | function node decl => rfl
  | type node decl => exact absurd (h _ he) id

theorem filter_of_isMethodOf {members : List Declared} {owner : String}
    (h : ∀ e ∈ members, e.IsMethodOf owner) (c : String) :
    (members.filterMap function?).filter (·.className == some c) =
      if owner = c then members.filterMap function? else [] := by
  have hclass : ∀ decl ∈ members.filterMap function?, decl.className = some owner := by
    intro decl hdecl
    obtain ⟨e, he, hfunction⟩ := List.mem_filterMap.1 hdecl
    cases e with
    | function node other =>
      cases hfunction
      exact (h _ he).1
    | type node other => cases hfunction
  split
  case isTrue howner =>
    rw [List.filter_eq_self]
    intro decl hdecl
    rw [hclass decl hdecl, howner, beq_self_eq_true]
  case isFalse howner =>
    rw [List.filter_eq_nil_iff]
    intro decl hdecl
    rw [hclass decl hdecl, beq_iff_eq, Option.some.injEq]
    exact howner

theorem Group.balanced {items : List Declared} (h : Group items) : Balanced items := by
  intro c
  cases h with
  | nothing => exact List.Perm.nil
  | function node decl hclass =>
    simp [Declarations.methodNames, Declarations.listedNames, assemble, function?, type?, hclass]
  | type members node decl howned hlisted =>
    have hfunctions := filter_of_isMethodOf howned c
    have hclasses := classes_of_isMethodOf howned
    rw [assemble_append]
    simp only [Declarations.methodNames, Declarations.listedNames, assemble, hclasses,
      List.filterMap_cons, List.filterMap_nil, function?, type?, List.append_nil, List.nil_append,
      hfunctions, List.filter_cons, List.filter_nil, beq_iff_eq]
    split
    · rw [List.flatMap_singleton, hlisted]
    · exact List.Perm.nil

theorem Group.isMethod {items : List Declared} (h : Group items) :
    ∀ decl ∈ items.filterMap function?, decl.className.isSome → decl.isMethod := by
  intro other hother hsome
  obtain ⟨e, he, hfunction⟩ := List.mem_filterMap.1 hother
  cases h with
  | nothing => cases he
  | function node decl hclass =>
    rw [List.mem_singleton.1 he] at hfunction
    cases hfunction
    rw [hclass] at hsome
    cases hsome
  | type members node decl howned hlisted =>
    rcases List.mem_append.1 he with he | he
    · have howner := howned e he
      cases e with
      | function node decl =>
        cases hfunction
        exact howner.2
      | type node decl => cases hfunction
    · rw [List.mem_singleton.1 he] at hfunction
      cases hfunction

section Members

variable {α : Type} {owner : String} {as : List α} {steps : α → List (Step Declared)}
  {name? : α → Option String}
  (h : ∀ a ∈ as, OfMember owner ((steps a).filterMap Step.item?) (name? a))

include h

theorem isMethodOf_of_members :
    ∀ e ∈ (as.flatMap steps).filterMap Step.item?, e.IsMethodOf owner := by
  intro e he
  rw [List.filterMap_flatMap] at he
  obtain ⟨a, ha, he⟩ := List.mem_flatMap.1 he
  have hmember := h a ha
  generalize (steps a).filterMap Step.item? = items at he hmember
  generalize name? a = name at hmember
  cases hmember with
  | nothing => cases he
  | method node decl howner hmethod =>
    rw [List.mem_singleton.1 he]
    exact ⟨howner, hmethod⟩

theorem names_of_members :
    (((as.flatMap steps).filterMap Step.item?).filterMap function?).map (·.name) =
      as.filterMap name? := by
  rw [List.filterMap_flatMap, List.filterMap_flatMap, List.map_flatMap,
    List.filterMap_eq_flatMap_toList]
  apply List.flatMap_congr
  intro a ha
  have hmember := h a ha
  generalize (steps a).filterMap Step.item? = items at hmember
  generalize name? a = name at hmember
  cases hmember with
  | nothing => rfl
  | method node decl howner hmethod => rfl

theorem group_of_members {node : Node} {decl : ClassDecl} (hname : decl.name = owner)
    (hmethods : decl.methods = as.filterMap name?) :
    Group ((as.flatMap steps ++ [Step.record (Declared.type node decl)]).filterMap Step.item?) := by
  rw [List.filterMap_append]
  apply Group.type
  · rw [hname]
    exact isMethodOf_of_members h
  · rw [hmethods, names_of_members h]

end Members

end Declared

end Extract

namespace Python

open Extract Declared

/--
The name of the method that a statement in the body of a class declares.
-/
def memberName? (n : Node) : Option String :=
  if isFunction (undecorated n) then (undecorated n).fieldText? "name" else none

theorem methodNames_eq (n : Node) : methodNames n = (bodyNodes n).filterMap memberName? := by
  unfold methodNames
  rw [List.filter_map, List.filterMap_map, List.filterMap_filter]
  rfl

variable (scope : Scope) (scopes : List String) (depth : Nat)

theorem ofMember_memberSteps (className : String) (n : Node) :
    OfMember className ((memberSteps scope scopes className depth n).filterMap Step.item?)
      (memberName? n) := by
  unfold memberSteps memberName?
  split
  case isFalse => exact .nothing
  case isTrue =>
    unfold methodSteps
    cases (undecorated n).fieldText? "name" with
    | none => exact .nothing
    | some name => exact .method _ _ rfl rfl

theorem group_plan (n : Node) : Group (plan scope scopes n depth).items := by
  rw [plan_eq]
  unfold Plan.items
  by_cases hfunction : isFunction n
  · simp only [if_pos hfunction]
    unfold functionSteps
    cases n.fieldText? "name" with
    | none => exact .nothing
    | some name => exact .function _ _ rfl
  by_cases hclass : n.kind = "class_definition"
  · simp only [if_neg hfunction, if_pos hclass]
    unfold classSteps
    cases n.fieldText? "name" with
    | none => exact .nothing
    | some name =>
      apply group_of_members
      · intro m _
        apply ofMember_memberSteps
      · rfl
      · exact methodNames_eq n
  · simp only [if_neg hfunction, if_neg hclass]
    exact .nothing

end Python

namespace TypeScript

open Extract Declared

variable (scope : Scope) (scopes : List String) (depth : Nat)

theorem ofMember_memberSteps (owner : String) (m : Member) :
    OfMember owner ((memberSteps scope scopes owner depth m).filterMap Step.item?)
      (m.name.map Node.text) := by
  unfold memberSteps
  cases m.name with
  | none => exact .nothing
  | some name => exact .method _ _ rfl rfl

theorem ofMember_signatureSteps (owner : String) (n : Node) :
    OfMember owner ((signatureSteps scope scopes owner n).filterMap Step.item?)
      (n.fieldText? "name") := by
  unfold signatureSteps
  cases n.fieldText? "name" with
  | none => exact .nothing
  | some name => exact .method _ _ rfl rfl

theorem group_classSteps (n : Node) (boundName : Option String) (isExported : Bool) :
    Group ((classSteps scope scopes n boundName isExported depth).filterMap Step.item?) := by
  unfold classSteps
  cases (n.fieldText? "name").or boundName with
  | none => exact .nothing
  | some name =>
    apply group_of_members
    · intro m _
      apply ofMember_memberSteps
    · rfl
    · rfl

theorem group_interfaceSteps (n : Node) :
    Group ((interfaceSteps scope scopes n).filterMap Step.item?) := by
  unfold interfaceSteps
  cases n.fieldText? "name" with
  | none => exact .nothing
  | some name =>
    apply group_of_members
    · intro m _
      apply ofMember_signatureSteps
    · rfl
    · rfl

theorem group_enumSteps (n : Node) : Group ((enumSteps scope n).filterMap Step.item?) := by
  unfold enumSteps
  cases n.fieldText? "name" with
  | none => exact .nothing
  | some name => exact .type [] _ _ (List.forall_mem_nil _) rfl

theorem group_plan (n : Node) : Group (plan scope scopes n depth).items := by
  rw [plan_eq]
  unfold Plan.items
  cases construct n with
  | function =>
    cases n.fieldText? "name" with
    | none => exact .nothing
    | some name => exact .function _ _ rfl
  | boundFunction name value => exact .function _ _ rfl
  | boundClass name value => apply group_classSteps
  | classType => apply group_classSteps
  | interface => apply group_interfaceSteps
  | enum => apply group_enumSteps
  | other => exact .nothing

end TypeScript

namespace Rust

open Extract

/--
The methods that an item lists.
-/
def Item.methods : Item → List String
  | function _ _ => []
  | type _ decl _ => decl.methods
  | trait _ decl => decl.methods
  | impl _ block => block.methods

/--
Whether some item is a method called `name`.
-/
def HasMethod (items : List Item) (name : String) : Prop :=
  ∃ decl ∈ items.filterMap Item.function?, decl.name = name ∧ decl.isMethod

theorem HasMethod.of_subset {items more : List Item} (hsubset : items ⊆ more) {name : String}
    (h : HasMethod items name) : HasMethod more name := by
  obtain ⟨decl, hdecl, hname⟩ := h
  obtain ⟨item, hitem, hfunction⟩ := List.mem_filterMap.1 hdecl
  exact ⟨decl, List.mem_filterMap.2 ⟨item, hsubset hitem, hfunction⟩, hname⟩

/--
Every name that an item lists is that of a method among the items.
-/
def Covered (items : List Item) : Prop :=
  ∀ item ∈ items, ∀ name ∈ item.methods, HasMethod items name

theorem cumulative_covered : Cumulative Covered where
  nil := List.forall_mem_nil _
  append {as bs} has hbs := by
    intro item hitem name hname
    rcases List.mem_append.1 hitem with hitem | hitem
    · exact (has item hitem name hname).of_subset (List.subset_append_left as bs)
    · exact (hbs item hitem name hname).of_subset (List.subset_append_right as bs)
  perm hperm has := by
    intro item hitem name hname
    exact (has item (hperm.mem_iff.2 hitem) name hname).of_subset hperm.subset

section Plan

variable (scope : Scope) (scopes : List String) (depth : Nat)

theorem methods_of_memberSteps {outer : String} {owner : Owner} {n : Node} {item : Item}
    (h : item ∈ (memberSteps scope scopes outer owner depth n).filterMap Step.item?) :
    item.methods = [] := by
  unfold memberSteps at h
  cases hname : n.fieldText? "name" with
  | none =>
    rw [hname] at h
    cases h
  | some name =>
    rw [hname] at h
    rw [List.mem_singleton.1 h]
    rfl

theorem hasMethod_memberSteps {outer : String} {owner : Owner} {n : Node} {name : String}
    (h : n.fieldText? "name" = some name) :
    HasMethod ((memberSteps scope scopes outer owner depth n).filterMap Step.item?) name := by
  unfold memberSteps
  rw [h]
  exact ⟨_, List.mem_cons_self, rfl, rfl⟩

theorem members_spec (outer : String) (owner : Owner) (n : Node) :
    let (steps, names) := members scope scopes outer owner n depth
    (∀ item ∈ steps.filterMap Step.item?, item.methods = []) ∧
      ∀ name ∈ names, HasMethod (steps.filterMap Step.item?) name := by
  unfold members
  cases n.field? "body" with
  | none => exact ⟨List.forall_mem_nil _, List.forall_mem_nil _⟩
  | some body =>
    simp only
    split
    case isTrue => exact ⟨List.forall_mem_nil _, List.forall_mem_nil _⟩
    case isFalse =>
      rw [List.filterMap_flatMap]
      constructor
      · intro item hitem
        obtain ⟨m, _, hitem⟩ := List.mem_flatMap.1 hitem
        exact methods_of_memberSteps scope scopes depth hitem
      · intro name hname
        obtain ⟨m, hm, hname⟩ := List.mem_filterMap.1 hname
        apply (hasMethod_memberSteps scope scopes depth hname).of_subset
        intro item hitem
        exact List.mem_flatMap.2 ⟨m, hm, hitem⟩

theorem covered_append_members {outer : String} {owner : Owner} {n : Node} {item : Item}
    (h : item.methods = (members scope scopes outer owner n depth).2) :
    Covered ((members scope scopes outer owner n depth).1.filterMap Step.item? ++ [item]) := by
  obtain ⟨hmembers, hnames⟩ := members_spec scope scopes depth outer owner n
  intro other hother name hname
  rcases List.mem_append.1 hother with hother | hother
  · rw [hmembers other hother] at hname
    cases hname
  · rw [List.mem_singleton.1 hother, h] at hname
    exact (hnames name hname).of_subset (List.subset_append_left _ _)

theorem covered_singleton {item : Item} (h : item.methods = []) : Covered [item] := by
  intro other hother name hname
  rw [List.mem_singleton.1 hother, h] at hname
  cases hname

variable {scope scopes depth}

theorem Records.covered {n : Node} {items : List Item} (h : Records scope scopes n depth items) :
    Covered items := by
  cases h with
  | nothing => exact cumulative_covered.nil
  | function name => exact covered_singleton rfl
  | type name path kind => exact covered_singleton rfl
  | trait name owner bounds => exact covered_append_members scope scopes _ rfl
  | impl outer owner block hmethods => exact covered_append_members scope scopes _ hmethods

end Plan

theorem mem_methods_joinTo {c : ClassDecl} {block : ImplBlock} {name : String}
    (h : name ∈ (ImplBlock.joinTo c block).methods) : name ∈ c.methods ∨ name ∈ block.methods := by
  unfold ImplBlock.joinTo at h
  split at h
  case h_1 =>
    split at h
    case isTrue => exact .inl h
    case isFalse => exact .inl h
  case h_2 => exact List.mem_append.1 h

theorem mem_methods_joinBlocks {paths : List String} {blocks : List ImplBlock} {path : String}
    {c : ClassDecl} {name : String} (h : name ∈ (joinBlocks paths blocks path c).methods) :
    name ∈ c.methods ∨ ∃ block ∈ blocks, name ∈ block.methods := by
  unfold joinBlocks at h
  have hmem : ∀ block ∈ blocks.filter (·.joins paths path), block ∈ blocks :=
    fun _ => List.mem_of_mem_filter
  generalize blocks.filter (·.joins paths path) = joined at h hmem
  induction joined generalizing c with
  | nil => exact .inl h
  | cons block joined ih =>
    rw [List.forall_mem_cons] at hmem
    rcases ih h hmem.2 with hname | hblock
    · rcases mem_methods_joinTo hname with hname | hname
      · exact .inl hname
      · exact .inr ⟨block, hmem.1, hname⟩
    · exact .inr hblock

/--
A name that a class of the file lists is listed by an item of the file.
-/
theorem exists_item_of_mem_methods {items : List Item} {c : ClassDecl} {name : String}
    (hc : c ∈ (assemble items).classes) (hname : name ∈ c.methods) :
    ∃ item ∈ items, name ∈ item.methods := by
  obtain ⟨item, hitem, hclass⟩ := List.mem_filterMap.1 hc
  cases item with
  | function node decl => cases hclass
  | impl node block => cases hclass
  | trait node decl =>
    cases hclass
    exact ⟨_, hitem, hname⟩
  | type node decl path =>
    cases hclass
    rcases mem_methods_joinBlocks hname with hname | ⟨block, hblock, hname⟩
    · exact ⟨_, hitem, hname⟩
    · obtain ⟨other, hother, himpl⟩ := List.mem_filterMap.1 hblock
      cases other with
      | impl node block =>
        cases himpl
        exact ⟨_, hother, hname⟩
      | _ => cases himpl

end Rust

namespace Language

open Extract

section Group

variable {planner : Planner Declared} {scope : Scope}
  (hgroup : ∀ scopes n depth, Declared.Group (planner scope scopes n depth).items)

include hgroup

theorem names_perm_of_group (nodes : List Node) (c : String) :
    let decls := Declared.assemble (recorded (traceAll planner scope nodes))
    (decls.methodNames c).Perm (decls.listedNames c) := by
  have hplan (scopes : List String) (n : Node) (depth : Nat) :
      Declared.Balanced (planner scope scopes n depth).items :=
    (hgroup scopes n depth).balanced
  exact Declared.cumulative_balanced.recorded_traceAll hplan nodes c

theorem isMethod_of_group (nodes : List Node) :
    ∀ decl ∈ (Declared.assemble (recorded (traceAll planner scope nodes))).functions,
      decl.className.isSome → decl.isMethod := by
  have hcumulative := cumulative_forall fun item : Declared =>
    ∀ decl, item.function? = some decl → decl.className.isSome → decl.isMethod
  intro decl hdecl
  obtain ⟨item, hitem, hfunction⟩ := List.mem_filterMap.1 hdecl
  refine hcumulative.recorded_traceAll ?_ nodes item hitem decl hfunction
  intro scopes n depth item hitem decl hfunction
  apply (hgroup scopes n depth).isMethod
  exact List.mem_filterMap.2 ⟨item, hitem, hfunction⟩

theorem exists_method_of_group (nodes : List Node) :
    let decls := Declared.assemble (recorded (traceAll planner scope nodes))
    ∀ c ∈ decls.classes, ∀ name ∈ c.methods,
      ∃ decl ∈ decls.functions, decl.name = name ∧ decl.isMethod := by
  intro decls c hc name hname
  have hlisted : name ∈ decls.listedNames c.name := by
    unfold Declarations.listedNames
    rw [List.mem_flatMap]
    exact ⟨c, List.mem_filter.2 ⟨hc, beq_self_eq_true _⟩, hname⟩
  have hmem := (names_perm_of_group hgroup nodes c.name).mem_iff.2 hlisted
  obtain ⟨decl, hdecl, rfl⟩ := List.mem_map.1 hmem
  obtain ⟨hdecl, hclass⟩ := List.mem_filter.1 hdecl
  refine ⟨decl, hdecl, rfl, isMethod_of_group hgroup nodes decl hdecl ?_⟩
  rw [beq_iff_eq.1 hclass]
  rfl

end Group

theorem exists_method_rust (scope : Scope) (nodes : List Node) :
    let decls := Rust.assemble (recorded (traceAll Rust.plan scope nodes))
    ∀ c ∈ decls.classes, ∀ name ∈ c.methods,
      ∃ decl ∈ decls.functions, decl.name = name ∧ decl.isMethod := by
  intro decls c hc name hname
  obtain ⟨item, hitem, hname⟩ := Rust.exists_item_of_mem_methods hc hname
  have hplan (scopes : List String) (n : Node) (depth : Nat) :
      Rust.Covered (Rust.plan scope scopes n depth).items :=
    (Rust.records_plan scope scopes n depth).covered
  exact Rust.cumulative_covered.recorded_traceAll hplan nodes item hitem name hname

/--
Every method that a class lists is recorded as a method. Except in Rust, where impl blocks stand
apart from their types, the methods recorded for the classes of a name are those that these classes
list.
-/
theorem methods_recorded_as_listed (language : Language) (scope : Scope) (root : Node)
    (f : Fallbacks) :
    let decls := ((language.declarations scope root).run f).1
    (∀ c ∈ decls.classes, ∀ name ∈ c.methods,
      ∃ decl ∈ decls.functions, decl.name = name ∧ decl.isMethod) ∧
    (language ≠ rust → ∀ c, (decls.methodNames c).Perm (decls.listedNames c)) := by
  intro decls
  have hdecls : decls = Declared.assemble (language.declared scope root) :=
    language.assemble_declared scope root f
  have hpython := fun scopes n depth => Python.group_plan scope scopes depth n
  have htypescript := fun scopes n depth => TypeScript.group_plan scope scopes depth n
  rw [hdecls]
  cases language with
  | rust =>
    refine ⟨?_, fun h => absurd rfl h⟩
    unfold declared
    rw [← Rust.assemble_eq]
    exact exists_method_rust scope root.namedChildren
  | typescript =>
    exact ⟨exists_method_of_group htypescript [root],
      fun _ => names_perm_of_group htypescript [root]⟩
  | javascript =>
    exact ⟨exists_method_of_group htypescript [root],
      fun _ => names_perm_of_group htypescript [root]⟩
  | python =>
    exact ⟨exists_method_of_group hpython [root], fun _ => names_perm_of_group hpython [root]⟩

def classInMethod : Tree :=
  .node ⟨"module", true, false, none, 0, 69⟩ [
    .node ⟨"class_definition", true, false, none, 0, 68⟩ [
      .node ⟨"identifier", true, false, some "name", 6, 7⟩ [],
      .node ⟨"block", true, false, some "body", 11, 68⟩ [
        .node ⟨"function_definition", true, false, none, 11, 52⟩ [
          .node ⟨"identifier", true, false, some "name", 15, 16⟩ [],
          .node ⟨"parameters", true, false, some "parameters", 16, 18⟩ [],
          .node ⟨"block", true, false, some "body", 24, 52⟩ [
            .node ⟨"class_definition", true, false, none, 24, 52⟩ [
              .node ⟨"identifier", true, false, some "name", 30, 31⟩ [],
              .node ⟨"block", true, false, some "body", 39, 52⟩ [
                .node ⟨"function_definition", true, false, none, 39, 52⟩ [
                  .node ⟨"identifier", true, false, some "name", 43, 44⟩ [],
                  .node ⟨"parameters", true, false, some "parameters", 44, 46⟩ [],
                  .node ⟨"block", true, false, some "body", 48, 52⟩ []]]]]],
        .node ⟨"function_definition", true, false, none, 55, 68⟩ [
          .node ⟨"identifier", true, false, some "name", 59, 60⟩ [],
          .node ⟨"parameters", true, false, some "parameters", 60, 62⟩ [],
          .node ⟨"block", true, false, some "body", 64, 68⟩ []]]]]

/--
A class in a method of a class with the same name: both list their own methods, and their records
stand between each other.
-/
theorem classInMethod_recorded_as_listed :
    let root := .root (.ofString
      "class A:\n  def m():\n    class A:\n      def n(): pass\n  def k(): pass\n") classInMethod
    let decls := ((declarations python ⟨"a.py", {}⟩ root).run 0).1
    decls.methodNames "A" = ["m", "n", "k"] ∧ decls.listedNames "A" = ["n", "m", "k"] ∧
      (decls.methodNames "A").Perm (decls.listedNames "A") := by
  refine ⟨by decide +kernel, by decide +kernel, ?_⟩
  exact (methods_recorded_as_listed python _ _ 0).2 (by decide) "A"

end Language

end Polyglot
