import Polyglot.Proofs.Declarations.Search
import Polyglot.Proofs.Declarations.TypeScript

/-!
This module contains the search for the declarations of TypeScript and JavaScript. It goes on in the
bodies of functions and methods, also of those bound to variables and fields, and otherwise in all
named children. It passes over the heads of functions and classes, over everything else in the body
of a class, and over interfaces and enums.
-/

namespace Polyglot.Node

theorem mem_children_of_parent? {n p : Node} (h : n.parent? = some p) : n ∈ p.children := by
  obtain ⟨source, tree, above⟩ := n
  cases above with
  | nil => nomatch h
  | cons frame above =>
    cases h
    exact mem_children_iff.2 ⟨frame.before, tree, frame.after, rfl, rfl⟩

end Polyglot.Node

namespace Polyglot.TypeScript

open Extract Search

def bodyOf (value : Node) : List Node := (value.field? "body").toList

/--
The body of the function that a node in the body of a class is or is bound to.
-/
def memberBody (n : Node) : List Node := (member? n).toList.flatMap fun m => bodyOf m.value

def search : Search where
  owns n :=
    match construct n with
    | .function | .classType | .interface | .enum => [n]
    | .boundFunction _ _ | .boundClass _ _ | .other => []
  opens n :=
    match construct n with
    | .function => bodyOf n
    | .boundFunction _ value => bodyOf value
    | .boundClass _ value => (bodyNodes value).flatMap memberBody
    | .classType => (bodyNodes n).flatMap memberBody
    | .interface | .enum => []
    | .other => n.namedChildren

theorem value_mem_children {n value : Node} (h : n.field? "value" = some value) :
    value ∈ n.children := by
  unfold Node.field? at h
  exact List.mem_of_find?_eq_some h

theorem member_value_mem_preorder {n : Node} {m : Member} (h : member? n = some m) :
    m.value ∈ n.preorder := by
  have hvalue := value_of_member? h
  split at hvalue
  case isTrue =>
    apply Node.mem_preorder_of_mem_children (value_mem_children hvalue)
    apply Node.mem_preorder_self
  case isFalse =>
    rw [hvalue]
    apply Node.mem_preorder_self

theorem inside_memberBody (n : Node) : Inside n (memberBody n) := by
  unfold memberBody
  cases hmember : member? n with
  | none => exact Inside.nil n
  | some m =>
    rw [Option.toList_some, List.flatMap_singleton]
    exact (Inside.field m.value "body").of_mem (member_value_mem_preorder hmember)

theorem inside_members (n : Node) : Inside n ((bodyNodes n).flatMap memberBody) := by
  have hbody := Inside.body n
  have hfits : Fits n ((bodyNodes n).flatMap fun _ => []) ((bodyNodes n).flatMap memberBody) := by
    apply Fits.flatMap hbody.mem_preorder hbody.before
    intro m _
    exact (inside_memberBody m).fits
  refine ⟨hfits.opens_mem, ?_, hfits.opens_before⟩
  intro m hm
  obtain ⟨k, hk, hm⟩ := List.mem_flatMap.1 hm
  have hlt := (inside_memberBody k).size_lt m hm
  have hle := hbody.size_lt k hk
  omega

theorem inside_opens (n : Node) : Inside n (search.opens n) := by
  have hvalue {name : String} {value : Node}
      (h : construct n = .boundFunction name value ∨ construct n = .boundClass name value) :
      value ∈ n.preorder := by
    apply Node.mem_preorder_of_mem_children (value_mem_children (field?_value_of_construct h))
    apply Node.mem_preorder_self
  unfold search
  simp only
  split
  case h_1 => exact Inside.field n "body"
  case h_2 name value h => exact (Inside.field value "body").of_mem (hvalue (.inl h))
  case h_3 name value h => exact (inside_members value).of_mem (hvalue (.inr h))
  case h_4 => exact inside_members n
  case h_5 => exact Inside.nil n
  case h_6 => exact Inside.nil n
  case h_7 => exact Inside.namedChildren n

theorem lawful_search : search.Lawful where
  fits n := by
    have hself := (inside_opens n).fits_self
    have hnone := (inside_opens n).fits
    unfold search at hself hnone ⊢
    simp only at hself hnone ⊢
    split <;> assumption
  size_lt n := (inside_opens n).size_lt

def isDeclaration (n : Node) : Bool :=
  ["function_declaration", "class_declaration"].contains n.kind

theorem not_isDeclaration_of_functionValue {n : Node} (h : isFunctionValue n) :
    ¬isDeclaration n := by
  unfold isFunctionValue functionValues at h
  unfold isDeclaration
  intro hdeclaration
  simp only [List.contains_eq_mem, List.mem_cons, List.not_mem_nil, or_false,
    decide_eq_true_eq] at h hdeclaration
  rcases hdeclaration with hkind | hkind <;> simp [hkind] at h

theorem not_isDeclaration_of_member? {n : Node} {m : Member} (h : member? n = some m) :
    m.declaring = n ∧ ¬isDeclaration n ∧ ¬isDeclaration m.value := by
  unfold member? at h
  split at h <;> rename_i hkind
  case h_6 => nomatch h
  case h_4 | h_5 =>
    obtain ⟨value, hvalue, rfl⟩ := Option.map_eq_some_iff.1 h
    refine ⟨rfl, by simp [isDeclaration, hkind], ?_⟩
    exact not_isDeclaration_of_functionValue (Option.filter_eq_some_iff.1 hvalue).2
  all_goals
    cases h
    simp [isDeclaration, hkind]

theorem value_of_construct {n value : Node} {name : String} :
    (construct n = .boundFunction name value → isFunctionValue value) ∧
      (construct n = .boundClass name value → value.kind = "class") := by
  unfold construct
  split
  case h_3 =>
    split
    · grind
    · simp
  all_goals simp

section Plan

variable (scope : Scope) (scopes : List String)

abbrev ShowsAt (file : String) : List (Step Declared) → (owns opens : List Node) → Prop :=
  Shows (fun item d => item.Describes file d) fun item d => item.node = d ∧ isDeclaration d

theorem shows_declared {file : String} {item : Declared} {n : Node}
    (h : item.Describes file n) : ShowsAt file [.record item] [n] [] := by
  apply shows_record h
  rintro k ⟨rfl, _⟩
  exact h.node_eq

theorem shows_other {file : String} {item : Declared} (h : ¬isDeclaration item.node) :
    ShowsAt file [.record item] [] [] := by
  refine ⟨rfl, nofun, ?_⟩
  rintro other hother d ⟨rfl, hd⟩
  rw [List.mem_singleton.1 hother] at hd
  exact absurd hd h

theorem shows_function {n : Node} {depth : Nat}
    (hclean : .skipped ∉ (n.fieldText? "name").elim [.skipped] fun name =>
      functionSteps scope scopes n n name (isExportWrapped n) depth) :
    ShowsAt scope.file ((n.fieldText? "name").elim [.skipped] fun name =>
      functionSteps scope scopes n n name (isExportWrapped n) depth) [n] (bodyOf n) := by
  cases hname : n.fieldText? "name" with
  | none =>
    rw [hname] at hclean
    exact absurd List.mem_cons_self hclean
  | some name =>
    apply Shows.append (shows_declared _) (shows_inside name [] (bodyOf n) (depth + 1))
    exact ⟨rfl, hname, rfl, rfl, rfl⟩

theorem shows_memberSteps {owner : String} {n : Node} {m : Member} {depth : Nat}
    (hmember : member? n = some m)
    (hclean : .skipped ∉ memberSteps scope scopes owner depth m) :
    ShowsAt scope.file (memberSteps scope scopes owner depth m) [] (bodyOf m.value) := by
  obtain ⟨hdeclaring, hnot, _⟩ := not_isDeclaration_of_member? hmember
  unfold memberSteps at *
  cases hname : m.name with
  | none =>
    rw [hname] at hclean
    exact absurd List.mem_cons_self hclean
  | some name =>
    apply Shows.append (shows_other _)
      (shows_inside owner [name.text] (bodyOf m.value) (depth + 2))
    rw [Declared.node, hdeclaring]
    exact hnot

theorem shows_members {owner : String} {n : Node} {depth : Nat}
    (hclean : .skipped ∉
      ((bodyNodes n).filterMap member?).flatMap (memberSteps scope scopes owner depth)) :
    ShowsAt scope.file
      (((bodyNodes n).filterMap member?).flatMap (memberSteps scope scopes owner depth)) []
      ((bodyNodes n).flatMap memberBody) := by
  have hopens : (bodyNodes n).flatMap memberBody =
      ((bodyNodes n).filterMap member?).flatMap fun m => bodyOf m.value := by
    rw [List.filterMap_eq_flatMap_toList, List.flatMap_assoc]
    rfl
  have howns : [] = ((bodyNodes n).filterMap member?).flatMap fun _ => ([] : List Node) := by simp
  rw [hopens, howns]
  apply shows_flatMap
  intro m hm
  obtain ⟨k, _, hmember⟩ := List.mem_filterMap.1 hm
  apply shows_memberSteps scope scopes hmember
  intro hskipped
  exact hclean (List.mem_flatMap.2 ⟨m, hm, hskipped⟩)

theorem shows_classType {n : Node} {isExported : Bool} {depth : Nat}
    (hclean : .skipped ∉ classSteps scope scopes n none isExported depth) :
    ShowsAt scope.file (classSteps scope scopes n none isExported depth) [n]
      ((bodyNodes n).flatMap memberBody) := by
  unfold classSteps at *
  cases hname : n.fieldText? "name" with
  | none =>
    rw [hname] at hclean
    exact absurd List.mem_cons_self hclean
  | some name =>
    rw [hname] at hclean
    rw [← List.append_nil ((bodyNodes n).flatMap memberBody)]
    apply Shows.append (shows_members scope scopes _) (shows_declared _)
    · intro hskipped
      exact hclean (List.mem_append_left _ hskipped)
    · exact ⟨rfl, hname, rfl, rfl, rfl⟩

theorem shows_boundClass {n : Node} {boundName : String} {isExported : Bool} {depth : Nat}
    (hkind : n.kind = "class")
    (hclean : .skipped ∉ classSteps scope scopes n (some boundName) isExported depth) :
    ShowsAt scope.file (classSteps scope scopes n (some boundName) isExported depth) []
      ((bodyNodes n).flatMap memberBody) := by
  unfold classSteps at *
  obtain ⟨name, hname⟩ : ∃ name, (n.fieldText? "name").or (some boundName) = some name := by
    cases n.fieldText? "name" with
    | none => exact ⟨boundName, rfl⟩
    | some name => exact ⟨name, rfl⟩
  rw [hname] at hclean ⊢
  rw [← List.append_nil ((bodyNodes n).flatMap memberBody)]
  apply Shows.append (shows_members scope scopes _) (shows_other _)
  · intro hskipped
    exact hclean (List.mem_append_left _ hskipped)
  · simp [Declared.node, isDeclaration, hkind]

theorem shows_signatureSteps {owner : String} {n : Node} (hkind : n.kind = "method_signature")
    (hclean : .skipped ∉ signatureSteps scope scopes owner n) :
    ShowsAt scope.file (signatureSteps scope scopes owner n) [] [] := by
  unfold signatureSteps at *
  cases hname : n.fieldText? "name" with
  | none =>
    rw [hname] at hclean
    exact absurd List.mem_cons_self hclean
  | some name =>
    apply shows_other
    simp [Declared.node, isDeclaration, hkind]

theorem shows_signatures {owner : String} {signatures : List Node}
    (hkind : ∀ m ∈ signatures, m.kind = "method_signature")
    (hclean : .skipped ∉ signatures.flatMap (signatureSteps scope scopes owner)) :
    ShowsAt scope.file (signatures.flatMap (signatureSteps scope scopes owner)) [] [] := by
  induction signatures with
  | nil => exact shows_nil
  | cons m signatures ih =>
    rw [List.flatMap_cons] at *
    rw [List.forall_mem_cons] at hkind
    apply Shows.append (shows_signatureSteps scope scopes hkind.1 _) (ih hkind.2 _)
    · intro hskipped
      exact hclean (List.mem_append_left _ hskipped)
    · intro hskipped
      exact hclean (List.mem_append_right _ hskipped)

theorem shows_interfaceSteps {n : Node} (hclean : .skipped ∉ interfaceSteps scope scopes n) :
    ShowsAt scope.file (interfaceSteps scope scopes n) [n] [] := by
  unfold interfaceSteps at *
  cases hname : n.fieldText? "name" with
  | none =>
    rw [hname] at hclean
    exact absurd List.mem_cons_self hclean
  | some name =>
    rw [hname] at hclean
    apply Shows.append (shows_signatures scope scopes _ _) (shows_declared _)
    · intro m hm
      simpa using List.of_mem_filter hm
    · intro hskipped
      exact hclean (List.mem_append_left _ hskipped)
    · exact ⟨rfl, hname, rfl, rfl, rfl⟩

theorem shows_enumSteps {n : Node} (hclean : .skipped ∉ enumSteps scope n) :
    ShowsAt scope.file (enumSteps scope n) [n] [] := by
  unfold enumSteps at *
  cases hname : n.fieldText? "name" with
  | none =>
    rw [hname] at hclean
    exact absurd List.mem_cons_self hclean
  | some name =>
    apply shows_declared
    exact ⟨rfl, hname, rfl, rfl, rfl⟩

-- A variable that is bound to a function is recorded at its parent, which `search` does not say.
theorem shows_plan {n : Node} {depth : Nat} (hclean : (plan scope scopes n depth).Clean) :
    (plan scope scopes n depth).opened n = search.opens n ∧
      ((∃ opens, ShowsAt scope.file (plan scope scopes n depth).steps (search.owns n) opens) ∨
        ∃ name value, construct n = .boundFunction name value) := by
  rw [plan_eq] at *
  unfold search Plan.opened
  simp only
  cases hconstruct : construct n with
  | function =>
    simp only [hconstruct] at hclean
    have hshows := shows_function scope scopes hclean.1
    exact ⟨by simp [hshows.nodes_eq], .inl ⟨_, hshows⟩⟩
  | boundFunction name value =>
    exact ⟨by simp [functionSteps, Step.nodes, bodyOf], .inr ⟨name, value, rfl⟩⟩
  | boundClass name value =>
    simp only [hconstruct] at hclean
    have hshows := shows_boundClass scope scopes (value_of_construct.2 hconstruct) hclean.1
    exact ⟨by simp [hshows.nodes_eq], .inl ⟨_, hshows⟩⟩
  | classType =>
    simp only [hconstruct] at hclean
    have hshows := shows_classType scope scopes hclean.1
    exact ⟨by simp [hshows.nodes_eq], .inl ⟨_, hshows⟩⟩
  | interface =>
    simp only [hconstruct] at hclean
    have hshows := shows_interfaceSteps scope scopes hclean.1
    exact ⟨by simp [hshows.nodes_eq], .inl ⟨_, hshows⟩⟩
  | enum =>
    simp only [hconstruct] at hclean
    have hshows := shows_enumSteps scope hclean.1
    exact ⟨by simp [hshows.nodes_eq], .inl ⟨_, hshows⟩⟩
  | other => exact ⟨rfl, .inl ⟨[], shows_nil⟩⟩

end Plan

theorem mem_children_of_mem_bodyOf {n value : Node} (h : n ∈ bodyOf value) :
    n ∈ value.children := by
  unfold bodyOf at h
  rw [Option.mem_toList] at h
  exact List.mem_of_find?_eq_some h

theorem exists_value_of_mem_members {n b : Node} (h : n ∈ (bodyNodes b).flatMap memberBody) :
    ∃ value, n ∈ value.children ∧ ¬isDeclaration value := by
  obtain ⟨k, _, hn⟩ := List.mem_flatMap.1 h
  obtain ⟨m, hm, hn⟩ := List.mem_flatMap.1 hn
  obtain ⟨_, _, hvalue⟩ := not_isDeclaration_of_member? (Option.mem_toList.1 hm)
  exact ⟨m.value, mem_children_of_mem_bodyOf hn, hvalue⟩

/--
The parent of a node that the search goes on to is declared where the search comes from, if it is a
declaration at all.
-/
theorem mem_owns_of_mem_opens {n p b : Node} (hn : n ∈ search.opens b) (hp : n.parent? = some p)
    (hdeclaration : isDeclaration p) : p ∈ search.owns b := by
  have hparent {value : Node} (hmem : n ∈ value.children) : value = p := by
    rw [Node.parent?_of_mem_children hmem] at hp
    exact Option.some.inj hp
  unfold search at hn ⊢
  simp only at hn ⊢
  cases hconstruct : construct b with
  | function =>
    simp only [hconstruct] at hn
    rw [hparent (mem_children_of_mem_bodyOf hn)]
    exact List.mem_cons_self
  | boundFunction name value =>
    simp only [hconstruct] at hn
    obtain rfl := hparent (mem_children_of_mem_bodyOf hn)
    have hvalue := value_of_construct.1 hconstruct
    exact absurd hdeclaration (not_isDeclaration_of_functionValue hvalue)
  | boundClass name value =>
    simp only [hconstruct] at hn
    obtain ⟨value, hmem, hvalue⟩ := exists_value_of_mem_members hn
    obtain rfl := hparent hmem
    exact absurd hdeclaration hvalue
  | classType =>
    simp only [hconstruct] at hn
    obtain ⟨value, hmem, hvalue⟩ := exists_value_of_mem_members hn
    obtain rfl := hparent hmem
    exact absurd hdeclaration hvalue
  | interface =>
    simp only [hconstruct] at hn
    nomatch hn
  | enum =>
    simp only [hconstruct] at hn
    nomatch hn
  | other =>
    simp only [hconstruct] at hn
    obtain rfl := hparent (Node.mem_children_of_mem_namedChildren hn)
    unfold isDeclaration at hdeclaration
    simp only [List.contains_eq_mem, List.mem_cons, List.not_mem_nil, or_false,
      decide_eq_true_eq] at hdeclaration
    rcases hdeclaration with hkind | hkind <;> simp [construct, hkind] at hconstruct

theorem finds_declaringOf {root n : Node} (h : search.LooksAt [root] n) {name : String}
    {value : Node} (hconstruct : construct n = .boundFunction name value)
    (hmem : declaringOf n ∈ root.preorder) (hdeclaration : isDeclaration (declaringOf n)) :
    search.Finds [root] (declaringOf n) := by
  obtain ⟨start, hstart, hreaches⟩ := h
  obtain rfl := List.mem_singleton.1 hstart
  unfold declaringOf at *
  cases hparent : n.parent? with
  | none =>
    rw [hparent, Option.getD_none] at hdeclaration
    exfalso
    unfold construct at hconstruct
    split at hconstruct <;> rename_i hkind <;> simp [isDeclaration, hkind] at *
  | some p =>
    rw [hparent, Option.getD_some] at hmem hdeclaration
    rcases hreaches.cases_tail with rfl | ⟨b, hb, hn⟩
    · have hlt := Node.size_lt_of_mem_children (Node.mem_children_of_parent? hparent)
      have hle := Node.size_le_of_mem_preorder hmem
      omega
    · exact ⟨b, ⟨start, hstart, hb⟩, mem_owns_of_mem_opens hn hparent hdeclaration⟩

/--
As long as nothing is counted, a declaration has a record exactly if the search finds it.
-/
theorem exists_record_iff {scope : Scope} {root : Node}
    (hclean : Clean (traceAll plan scope [root])) {d : Node} (hmem : d ∈ root.preorder)
    (hdeclaration : isDeclaration d) :
    (∃ item ∈ Extract.recorded (traceAll plan scope [root]), item.Describes scope.file d) ↔
      search.Finds [root] d := by
  apply exists_describes_iff hclean lawful_search
  · intro scopes n depth hplan
    exact (shows_plan scope scopes hplan).1
  · intro scopes n depth hplan hd
    rcases (shows_plan scope scopes hplan).2 with ⟨_, hshows⟩ | ⟨name, value, hconstruct⟩
    · exact hshows.described d hd
    · unfold search at hd
      simp only [hconstruct] at hd
      nomatch hd
  · intro scopes n depth hn hplan item hitem hdescribes
    rcases (shows_plan scope scopes hplan).2 with ⟨_, hshows⟩ | ⟨name, value, hconstruct⟩
    · exact ⟨n, hn, hshows.owned item hitem d ⟨hdescribes.node_eq, hdeclaration⟩⟩
    · obtain rfl : declaringOf n = d := by
        rw [plan_eq, hconstruct] at hitem
        obtain rfl := List.mem_singleton.1 hitem
        exact hdescribes.node_eq
      exact finds_declaringOf hn hconstruct hmem hdeclaration

end Polyglot.TypeScript
