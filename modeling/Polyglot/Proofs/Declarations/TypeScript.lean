import Polyglot.Extract.Declarations.TypeScript
import Polyglot.Proofs.Declarations.Traversal

/-!
This module contains the functions of TypeScript and JavaScript as a plain traversal. Functions,
also those bound to variables and fields, methods, classes and interfaces are the named scopes.
-/

namespace Polyglot.TypeScript

open Extract

/--
The constructs that declare something.
-/
inductive Construct where
  | function
  /-- A variable that is bound to a function. -/
  | boundFunction (name : String) (value : Node)
  /-- A variable that is bound to a class. -/
  | boundClass (name : String) (value : Node)
  | classType
  | interface
  | enum
  | other

def construct (n : Node) : Construct :=
  match n.kind with
  | "function_declaration" | "generator_function_declaration" => .function
  | "variable_declarator" =>
    match n.field? "name", n.field? "value" with
    | some name, some value =>
      if name.kind = "identifier" ∧ isFunctionValue value then .boundFunction name.text value
      else if value.kind = "class" then .boundClass name.text value
      else .other
    | _, _ => .other
  | "class_declaration" | "abstract_class_declaration" | "class" => .classType
  | "interface_declaration" => .interface
  | "enum_declaration" => .enum
  | _ => .other

/--
The node that carries the modifiers of a variable.
-/
def declaringOf (n : Node) : Node := n.parent?.getD n

theorem plan_eq (scope : Scope) (scopes : List String) (n : Node) (depth : Nat) :
    plan scope scopes n depth =
      match construct n with
      | .function =>
        { steps := (n.fieldText? "name").elim [.skipped] fun name =>
            functionSteps scope scopes n n name (isExportWrapped n) depth }
      | .boundFunction name value =>
        { steps := functionSteps scope scopes value (declaringOf n) name
            (isExportWrapped (declaringOf n)) depth }
      | .boundClass name value =>
        { steps := classSteps scope scopes value (some name) (isExportWrapped (declaringOf n))
            depth }
      | .classType => { steps := classSteps scope scopes n none (isExportWrapped n) depth }
      | .interface => { steps := interfaceSteps scope scopes n }
      | .enum => { steps := enumSteps scope n }
      | .other => .descendOnly := by
  unfold plan
  split <;> rename_i hkind
  case h_3 =>
    simp only [construct, hkind]
    unfold declaratorPlan
    cases n.field? "name" with
    | none => rfl
    | some name =>
      cases n.field? "value" with
      | none => rfl
      | some value =>
        simp only
        split
        · rfl
        · split
          · rfl
          · rfl
  case h_9 =>
    have hother : construct n = .other := by
      unfold construct
      split <;> first | rfl | contradiction
    rw [hother]
  all_goals simp only [construct, hkind]
  all_goals
    cases n.fieldText? "name" with
    | none => rfl
    | some name => rfl

theorem field?_value_of_construct {n value : Node} {name : String}
    (h : construct n = .boundFunction name value ∨ construct n = .boundClass name value) :
    n.field? "value" = some value := by
  unfold construct at h
  split at h
  case h_3 =>
    split at h
    · rename_i hvalue
      rw [hvalue]
      grind
    · simp at h
  all_goals simp at h

def isFieldDefinition (n : Node) : Bool :=
  ["public_field_definition", "field_definition"].contains n.kind

theorem value_of_member? {n : Node} {m : Member} (h : member? n = some m) :
    if isFieldDefinition n then n.field? "value" = some m.value else m.value = n := by
  unfold member? at h
  split at h <;> rename_i hkind
  · cases h
    simp [isFieldDefinition, hkind]
  · cases h
    simp [isFieldDefinition, hkind]
  · cases h
    simp [isFieldDefinition, hkind]
  · obtain ⟨value, hvalue, rfl⟩ := Option.map_eq_some_iff.1 h
    simp [isFieldDefinition, hkind, Option.eq_some_of_filter_eq_some hvalue]
  · obtain ⟨value, hvalue, rfl⟩ := Option.map_eq_some_iff.1 h
    simp [isFieldDefinition, hkind, Option.eq_some_of_filter_eq_some hvalue]
  · cases h

/--
The name of a function in the body of a class.
-/
def memberName? (n : Node) : Option String := (member? n).bind (·.name.map Node.text)

/--
What a node means to the search for functions.
-/
inductive Role where
  /-- A statement or an expression, which may declare something. -/
  | code
  /-- A function that is declared by the variable or the field it is bound to. -/
  | functionValue
  | boundClass (name : String)
  | classBody (className : String)
  | member (className : String)
  | interfaceBody (name : String)
  | signature (name : String)

def rules : Rules Role where
  separator := separator
  admits limits role nesting depth :=
    match role with
    | .code => nesting ≤ limits.maxScopeDepth ∧ depth ≤ limits.maxTreeDepth
    | _ => true
  declared? scope role n :=
    match role with
    | .code =>
      match construct n with
      | .function =>
        (n.fieldText? "name").map fun name =>
          functionDecl scope [] none n n name (isExportWrapped n)
      | .boundFunction name value =>
        some (functionDecl scope [] none value (declaringOf n) name
          (isExportWrapped (declaringOf n)))
      | _ => none
    | .member className =>
      (member? n).bind fun m =>
        m.name.map fun name =>
          functionDecl scope [] (some className) m.value m.declaring name.text
            (!isPrivateMember m.declaring name.text)
    | .signature owner =>
      (n.fieldText? "name").map fun name => functionDecl scope [] (some owner) n n name true
    | _ => none
  opened? role n :=
    match role with
    | .code =>
      match construct n with
      | .function | .classType | .interface => n.fieldText? "name"
      | .boundFunction name _ => some name
      | _ => none
    | .boundClass name => (n.fieldText? "name").or (some name)
    | .member _ => memberName? n
    | _ => none
  role? role depth n c :=
    match role with
    | .code =>
      match construct n with
      | .function =>
        if n.isField "body" c then (n.fieldText? "name").map fun _ => (.code, depth + 1) else none
      | .boundFunction _ _ =>
        if n.isField "value" c then some (.functionValue, depth + 1) else none
      | .boundClass name _ =>
        if n.isField "value" c then some (.boundClass name, depth) else none
      | .classType =>
        if n.isField "body" c then (n.fieldText? "name").map (.classBody ·, depth + 1) else none
      | .interface =>
        if n.isField "body" c then (n.fieldText? "name").map (.interfaceBody ·, depth + 1)
        else none
      | .enum => none
      | .other => if c.isNamed then some (.code, depth + 1) else none
    | .functionValue => if n.isField "body" c then some (.code, depth) else none
    | .boundClass name =>
      if n.isField "body" c then
        ((n.fieldText? "name").or (some name)).map (.classBody ·, depth + 1)
      else none
    | .classBody className =>
      if c.isNamed then (member? c).map fun _ => (.member className, depth) else none
    | .member _ =>
      -- A field has a function for its value, a method is one.
      if isFieldDefinition n then
        if n.isField "value" c then (memberName? n).map fun _ => (.functionValue, depth + 1)
        else none
      else
        if n.isField "body" c then (memberName? n).map fun _ => (.code, depth + 1) else none
    | .interfaceBody name =>
      if c.isNamed then if c.kind == "method_signature" then some (.signature name, depth) else none
      else none
    | .signature _ => none

section Traverse

variable (scope : Scope) (scopes : List String) (n : Node) (depth : Nat)

theorem functions_functionValue :
    rules.functions scope .functionValue scopes n depth =
      (n.field? "body").elim [] fun body => rules.functions scope .code scopes body depth := by
  rw [Rules.functions_of_field rfl (fun _ => rfl)]
  simp [Rules.function?, rules]

theorem functions_classBody (className : String) :
    rules.functions scope (.classBody className) scopes n depth =
      n.namedChildren.flatMap fun c =>
        (member? c).elim [] fun _ =>
          rules.functions scope (.member className) scopes c depth := by
  rw [Rules.functions_of_named rfl rfl rfl (fun _ => rfl)]
  congr 1
  funext c
  cases member? c with
  | none => rfl
  | some m => rfl

theorem functions_interfaceBody (name : String) :
    rules.functions scope (.interfaceBody name) scopes n depth =
      (n.namedChildren.filter (·.kind == "method_signature")).flatMap
        (rules.functions scope (.signature name) scopes · depth) := by
  rw [Rules.functions_of_named rfl rfl rfl (fun _ => rfl), flatMap_filter]
  congr 1
  funext c
  split
  · rfl
  · rfl

theorem function?_member {m : Member} (h : member? n = some m) (className : String) :
    rules.function? scope (.member className) (scopes ++ [className]) n =
      m.name.map fun name =>
        functionDecl scope scopes (some className) m.value m.declaring name.text
          (!isPrivateMember m.declaring name.text) := by
  simp only [Rules.function?, rules, h, Option.bind_some, Option.map_map]
  rfl

theorem memberName?_eq {m : Member} (h : member? n = some m) :
    memberName? n = m.name.map Node.text := by
  rw [memberName?, h, Option.bind_some]

end Traverse

/--
The functions that the walk for declarations records from a node on.
-/
def recorded (scope : Scope) (scopes : List String) (n : Node) (depth : Nat) :
    List FunctionDecl :=
  collected Declared.function? plan scope scopes n depth

def recordedBy (scope : Scope) (scopes : List String) : Step Declared → List FunctionDecl :=
  collectedBy Declared.function? plan scope scopes

section Steps

variable {scope : Scope} {n : Node} (ih : ∀ m, m.size < n.size → ∀ scopes depth,
  rules.functions scope .code scopes m depth = recorded scope scopes m depth)

include ih

theorem functions_body {value : Node} (hvalue : value.size ≤ n.size) (scopes : List String)
    (depth : Nat) :
    ((value.field? "body").elim [] fun body => rules.functions scope .code scopes body depth) =
      (value.field? "body").toList.flatMap (recorded scope scopes · depth) := by
  cases hbody : value.field? "body" with
  | none => rfl
  | some body =>
    rw [Option.elim_some, ih body (Nat.lt_of_lt_of_le (Node.size_lt_of_field hbody) hvalue)]
    simp

omit ih in
theorem recordedBy_functionSteps (scopes : List String) (value declaring : Node) (name : String)
    (isExported : Bool) (depth : Nat) :
    (functionSteps scope scopes value declaring name isExported depth).flatMap
        (recordedBy scope scopes) =
      functionDecl scope scopes none value declaring name isExported ::
        (value.field? "body").toList.flatMap
          (recorded scope (scopes ++ [name]) · (depth + 1)) := by
  simp [functionSteps, recordedBy, collectedBy, recorded, Declared.function?]

theorem functions_of_function {scopes : List String} {depth : Nat}
    (h : construct n = .function)
    (hadmits : rules.admits scope.limits .code scopes.length depth) :
    rules.functions scope .code scopes n depth =
      ((n.fieldText? "name").elim [.skipped] fun name =>
        functionSteps scope scopes n n name (isExportWrapped n) depth).flatMap
          (recordedBy scope scopes) := by
  have hrole (c : Node) : rules.role? .code depth n c =
      if n.isField "body" c then (n.fieldText? "name").map fun _ => (.code, depth + 1)
      else none := by
    simp only [rules, h]
  have hfunction : rules.function? scope .code scopes n =
      (n.fieldText? "name").map fun name =>
        functionDecl scope scopes none n n name (isExportWrapped n) := by
    simp only [Rules.function?, rules, h, Option.map_map]
    congr 1
    funext name
    simp [FunctionDecl.qualifiedIn, functionDecl]
  rw [Rules.functions_of_field hadmits hrole, hfunction]
  cases hname : n.fieldText? "name" with
  | none => rfl
  | some name =>
    have hopened : rules.opened? .code n = some name := by
      simp only [rules, h, hname]
    rw [Option.elim_some, recordedBy_functionSteps, Option.map_some, Option.map_some,
      Option.elim_some, functions_body ih (Nat.le_refl _), hopened]
    rfl

theorem functions_of_boundFunction {scopes : List String} {depth : Nat} {name : String}
    {value : Node} (h : construct n = .boundFunction name value)
    (hadmits : rules.admits scope.limits .code scopes.length depth) :
    rules.functions scope .code scopes n depth =
      (functionSteps scope scopes value (declaringOf n) name (isExportWrapped (declaringOf n))
        depth).flatMap (recordedBy scope scopes) := by
  have hrole (c : Node) : rules.role? .code depth n c =
      if n.isField "value" c then some (.functionValue, depth + 1) else none := by
    simp only [rules, h]
  have hfunction : rules.function? scope .code scopes n =
      some (functionDecl scope scopes none value (declaringOf n) name
        (isExportWrapped (declaringOf n))) := by
    simp only [Rules.function?, rules, h, Option.map_some]
    simp [FunctionDecl.qualifiedIn, functionDecl]
  have hopened : rules.opened? .code n = some name := by
    simp only [rules, h]
  have hfield := field?_value_of_construct (.inl h)
  rw [Rules.functions_of_field hadmits hrole, hfunction, hopened, recordedBy_functionSteps,
    Option.elim_some, hfield, Option.elim_some, functions_functionValue,
    functions_body ih (Nat.le_of_lt (Node.size_lt_of_field hfield))]
  rfl

theorem functions_memberBody {m : Member} (h : member? n = some m) {name : Node}
    (hname : m.name = some name) (className : String) (scopes : List String) (depth : Nat) :
    rules.functions scope (.member className) (scopes ++ [className]) n (depth + 1) =
      functionDecl scope scopes (some className) m.value m.declaring name.text
          (!isPrivateMember m.declaring name.text) ::
        (m.value.field? "body").toList.flatMap
          (recorded scope (scopes ++ [className, name.text]) · (depth + 2)) := by
  have hmember := memberName?_eq n h
  rw [hname, Option.map_some] at hmember
  have hopened : rules.opened? (.member className) n = some name.text := hmember
  -- The body of a method is its child, that of a function in a field is a child of the value.
  by_cases hfield : isFieldDefinition n
  · have hrole (c : Node) : rules.role? (.member className) (depth + 1) n c =
        if n.isField "value" c then some (.functionValue, depth + 2) else none := by
      simp only [rules, if_pos hfield, hmember, Option.map_some]
    have hvalue : n.field? "value" = some m.value := by
      simpa [hfield] using value_of_member? h
    rw [Rules.functions_of_field rfl hrole, function?_member _ _ _ h, hname, hopened,
      Option.elim_some, hvalue, Option.elim_some, functions_functionValue,
      functions_body ih (Nat.le_of_lt (Node.size_lt_of_field hvalue))]
    simp
  · have hrole (c : Node) : rules.role? (.member className) (depth + 1) n c =
        if n.isField "body" c then some (.code, depth + 2) else none := by
      simp only [rules, if_neg hfield, hmember, Option.map_some]
    have hvalue : m.value = n := by
      simpa [hfield] using value_of_member? h
    rw [Rules.functions_of_field rfl hrole, function?_member _ _ _ h, hname, hopened,
      Option.elim_some, functions_body ih (Nat.le_refl _), hvalue]
    simp

theorem functions_member {m : Member} (h : member? n = some m) (className : String)
    (scopes : List String) (depth : Nat) :
    rules.functions scope (.member className) (scopes ++ [className]) n (depth + 1) =
      (memberSteps scope scopes className depth m).flatMap (recordedBy scope scopes) := by
  unfold memberSteps
  cases hname : m.name with
  | none =>
    have hmember := memberName?_eq n h
    rw [hname, Option.map_none] at hmember
    rw [Rules.functions_of_none rfl (fun _ => by simp [rules, hmember]), function?_member _ _ _ h,
      hname]
    rfl
  | some name =>
    rw [functions_memberBody ih h hname]
    simp [recordedBy, collectedBy, recorded, Declared.function?]

/--
The functions of a class, which has a name of its own or the one it is bound to.
-/
theorem functions_class {value : Node} (hvalue : value.size ≤ n.size) {role : Role}
    {scopes : List String} {depth : Nat} {boundName : Option String}
    (hadmits : rules.admits scope.limits role scopes.length depth)
    (hnone : rules.function? scope role scopes value = none)
    (hopened : rules.opened? role value = (value.fieldText? "name").or boundName)
    (hrole : ∀ c, rules.role? role depth value c =
      if value.isField "body" c then
        ((value.fieldText? "name").or boundName).map (.classBody ·, depth + 1)
      else none)
    (isExported : Bool) :
    rules.functions scope role scopes value depth =
      (classSteps scope scopes value boundName isExported depth).flatMap
        (recordedBy scope scopes) := by
  rw [Rules.functions_of_field hadmits hrole, hnone, hopened]
  unfold classSteps
  cases (value.fieldText? "name").or boundName with
  | none => rfl
  | some name =>
    have htype (decl : ClassDecl) : recordedBy scope scopes (.record (.type value decl)) = [] := rfl
    rw [Option.map_some, Option.elim_some]
    simp only [List.flatMap_append, List.flatMap_singleton, htype, List.append_nil,
      List.flatMap_assoc, List.filterMap_eq_flatMap_toList, Option.toList_none, List.nil_append,
      Option.toList_some]
    unfold bodyNodes
    cases hbody : value.field? "body" with
    | none => rfl
    | some body =>
      rw [Option.elim_some, Option.elim_some, functions_classBody]
      apply List.flatMap_congr
      intro c hc
      cases hmember : member? c with
      | none => rfl
      | some m =>
        have hsize := (Node.size_lt_of_mem_namedChildren hc).trans (Node.size_lt_of_field hbody)
        rw [Option.elim_some, Option.toList_some, List.flatMap_singleton]
        apply functions_member _ hmember
        intro a ha
        exact ih a (by omega)

theorem functions_of_classType {scopes : List String} {depth : Nat}
    (h : construct n = .classType)
    (hadmits : rules.admits scope.limits .code scopes.length depth) :
    rules.functions scope .code scopes n depth =
      (classSteps scope scopes n none (isExportWrapped n) depth).flatMap
        (recordedBy scope scopes) := by
  apply functions_class ih (Nat.le_refl _) hadmits
  · simp only [Rules.function?, rules, h, Option.map_none]
  · simp only [rules, h, Option.or_none]
  · intro c
    simp only [rules, h, Option.or_none]

theorem functions_of_boundClass {scopes : List String} {depth : Nat} {name : String}
    {value : Node} (h : construct n = .boundClass name value)
    (hadmits : rules.admits scope.limits .code scopes.length depth) :
    rules.functions scope .code scopes n depth =
      (classSteps scope scopes value (some name) (isExportWrapped (declaringOf n)) depth).flatMap
        (recordedBy scope scopes) := by
  have hrole (c : Node) : rules.role? .code depth n c =
      if n.isField "value" c then some (.boundClass name, depth) else none := by
    simp only [rules, h]
  have hnone : rules.function? scope .code scopes n = none := by
    simp only [Rules.function?, rules, h, Option.map_none]
  have hopened : rules.opened? .code n = none := by
    simp only [rules, h]
  have hfield := field?_value_of_construct (.inr h)
  rw [Rules.functions_of_field hadmits hrole, hnone, hopened, Option.elim_some, hfield,
    Option.elim_some, Option.toList_none, Option.toList_none, List.append_nil, List.nil_append]
  exact functions_class ih (Nat.le_of_lt (Node.size_lt_of_field hfield)) rfl rfl rfl
    (fun _ => rfl) _

omit ih in
theorem functions_signature (owner : String) (scopes : List String) (depth : Nat) :
    rules.functions scope (.signature owner) (scopes ++ [owner]) n depth =
      (signatureSteps scope scopes owner n).flatMap (recordedBy scope scopes) := by
  rw [Rules.functions_of_none rfl (fun _ => rfl)]
  unfold signatureSteps
  cases hname : n.fieldText? "name" with
  | none => simp [Rules.function?, rules, hname, recordedBy, collectedBy]
  | some name =>
    simp [Rules.function?, rules, hname, recordedBy, collectedBy, Declared.function?,
      FunctionDecl.qualifiedIn, functionDecl]

omit ih in
theorem functions_of_interface {scopes : List String} {depth : Nat}
    (h : construct n = .interface)
    (hadmits : rules.admits scope.limits .code scopes.length depth) :
    rules.functions scope .code scopes n depth =
      (interfaceSteps scope scopes n).flatMap (recordedBy scope scopes) := by
  have hrole (c : Node) : rules.role? .code depth n c =
      if n.isField "body" c then (n.fieldText? "name").map (.interfaceBody ·, depth + 1)
      else none := by
    simp only [rules, h]
  have hnone : rules.function? scope .code scopes n = none := by
    simp only [Rules.function?, rules, h, Option.map_none]
  have hopened : rules.opened? .code n = n.fieldText? "name" := by
    simp only [rules, h]
  rw [Rules.functions_of_field hadmits hrole, hnone, hopened]
  unfold interfaceSteps
  cases n.fieldText? "name" with
  | none => rfl
  | some name =>
    have htype (decl : ClassDecl) : recordedBy scope scopes (.record (.type n decl)) = [] := rfl
    rw [Option.map_some, Option.elim_some]
    simp only [List.flatMap_append, List.flatMap_singleton, htype, List.append_nil,
      List.flatMap_assoc, Option.toList_none, List.nil_append, Option.toList_some]
    unfold bodyNodes
    cases n.field? "body" with
    | none => rfl
    | some body =>
      rw [Option.elim_some, Option.elim_some, functions_interfaceBody]
      simp only [functions_signature]

omit ih in
theorem functions_of_enum {scopes : List String} {depth : Nat} (h : construct n = .enum)
    (hadmits : rules.admits scope.limits .code scopes.length depth) :
    rules.functions scope .code scopes n depth =
      (enumSteps scope n).flatMap (recordedBy scope scopes) := by
  have hnone : rules.function? scope .code scopes n = none := by
    simp only [Rules.function?, rules, h, Option.map_none]
  rw [Rules.functions_of_none hadmits (fun _ => by simp only [rules, h]), hnone]
  unfold enumSteps
  cases n.fieldText? "name" with
  | none => rfl
  | some name => rfl

theorem functions_of_other {scopes : List String} {depth : Nat} (h : construct n = .other)
    (hadmits : rules.admits scope.limits .code scopes.length depth) :
    rules.functions scope .code scopes n depth =
      n.namedChildren.flatMap (recorded scope scopes · (depth + 1)) := by
  have hrole (c : Node) : rules.role? .code depth n c =
      if c.isNamed then some (.code, depth + 1) else none := by
    simp only [rules, h]
  have hdeclared : rules.declared? scope .code n = none := by
    simp only [rules, h]
  have hopened : rules.opened? .code n = none := by
    simp only [rules, h]
  rw [Rules.functions_of_named hadmits hdeclared hopened hrole]
  apply List.flatMap_congr
  intro c hc
  exact ih c (Node.size_lt_of_mem_namedChildren hc) scopes (depth + 1)

theorem functions_plan (scopes : List String) (depth : Nat)
    (hadmits : rules.admits scope.limits .code scopes.length depth) :
    rules.functions scope .code scopes n depth =
      (plan scope scopes n depth).steps.flatMap (recordedBy scope scopes) ++
        if (plan scope scopes n depth).descend then
          n.namedChildren.flatMap (recorded scope scopes · (depth + 1))
        else [] := by
  rw [plan_eq]
  cases h : construct n with
  | function =>
    rw [functions_of_function ih h hadmits]
    simp
  | boundFunction name value =>
    rw [functions_of_boundFunction ih h hadmits]
    simp
  | boundClass name value =>
    rw [functions_of_boundClass ih h hadmits]
    simp
  | classType =>
    rw [functions_of_classType ih h hadmits]
    simp
  | interface =>
    rw [functions_of_interface h hadmits]
    simp
  | enum =>
    rw [functions_of_enum h hadmits]
    simp
  | other =>
    rw [functions_of_other ih h hadmits]
    simp [Plan.descendOnly]

end Steps

theorem functions_eq_recorded (scope : Scope) (scopes : List String) (n : Node) (depth : Nat) :
    rules.functions scope .code scopes n depth = recorded scope scopes n depth := by
  apply Rules.functions_eq_collected
  · simp [rules]
  · intro n ih
    exact functions_plan ih

end Polyglot.TypeScript
