import Polyglot.Extract.Declarations.Python
import Polyglot.Proofs.Declarations.Traversal

/-!
This module contains the functions of Python as a plain traversal. Functions and classes are the
named scopes.
-/

namespace Polyglot.Python

open Extract

/--
What a node means to the search for functions.
-/
inductive Role where
  /-- A statement or an expression, which may declare something. -/
  | code
  /-- The body of a function. -/
  | block
  | classBody (className : String)
  | method (className : String)
  /-- A method with its decorators. -/
  | decorated (className : String)

/--
The role of a statement in the body of a class.
-/
def memberRole (className : String) (n : Node) : Role :=
  if isFunction n then .method className
  else if isFunction (undecorated n) then .decorated className
  else .code

def rules : Rules Role where
  separator := separator
  admits limits role nesting depth :=
    match role with
    | .code => nesting ≤ limits.maxScopeDepth ∧ depth ≤ limits.maxTreeDepth
    | _ => true
  declared? scope role n :=
    match role with
    | .code =>
      if isFunction n then (n.fieldText? "name").map (functionDecl scope [] none n) else none
    | .method className => (n.fieldText? "name").map (functionDecl scope [] (some className) n)
    | _ => none
  opened? role n :=
    match role with
    | .code => if isFunction n ∨ n.kind = "class_definition" then n.fieldText? "name" else none
    | .method _ => n.fieldText? "name"
    | _ => none
  role? role depth n c :=
    match role with
    | .code =>
      if isFunction n then
        if n.isField "body" c then (n.fieldText? "name").map fun _ => (.block, depth + 1) else none
      else if n.kind = "class_definition" then
        if n.isField "body" c then (n.fieldText? "name").map (.classBody ·, depth + 1) else none
      else if c.isNamed then some (.code, depth + 1) else none
    | .block => if c.isNamed then some (.code, depth) else none
    | .classBody className => if c.isNamed then some (memberRole className c, depth) else none
    | .method _ =>
      if n.isField "body" c then (n.fieldText? "name").map fun _ => (.block, depth + 1) else none
    | .decorated className =>
      if n.isField "definition" c then some (.method className, depth) else none

theorem isBlock_block : rules.IsBlock .block .code where
  admits _ _ _ := rfl
  declared? _ _ := rfl
  opened? _ := rfl
  role? _ _ _ := rfl

section Traverse

variable (scope : Scope) (scopes : List String) (n : Node) (depth : Nat)

theorem functions_classBody (className : String) :
    rules.functions scope (.classBody className) scopes n depth =
      n.namedChildren.flatMap fun c =>
        rules.functions scope (memberRole className c) scopes c depth := by
  rw [Rules.functions_of_named rfl rfl rfl (fun _ => rfl)]
  rfl

theorem functions_decorated (className : String) :
    rules.functions scope (.decorated className) scopes n depth =
      (n.field? "definition").elim [] fun c =>
        rules.functions scope (.method className) scopes c depth := by
  rw [Rules.functions_of_field rfl (fun _ => rfl)]
  simp [Rules.function?, rules]

end Traverse

/--
The functions that the walk for declarations records from a node on.
-/
def recorded (scope : Scope) (scopes : List String) (n : Node) (depth : Nat) :
    List FunctionDecl :=
  collected Declared.function? plan scope scopes n depth

def recordedBy (scope : Scope) (scopes : List String) : Step Declared → List FunctionDecl :=
  collectedBy Declared.function? plan scope scopes

section Steps

variable {scope : Scope} {n : Node} (ih : ∀ m, m.size < n.size → ∀ scopes depth,
  rules.functions scope .code scopes m depth = recorded scope scopes m depth)

include ih

theorem functions_of_isFunction {scopes : List String} {depth : Nat} (h : isFunction n)
    (hadmits : rules.admits scope.limits .code scopes.length depth) :
    rules.functions scope .code scopes n depth =
      (functionSteps scope scopes n depth).flatMap (recordedBy scope scopes) := by
  have hdecl (name : String) :
      (functionDecl scope [] none n name).qualifiedIn scopes rules.separator =
        functionDecl scope scopes none n name := by
    simp [FunctionDecl.qualifiedIn, functionDecl, rules]
  have hopened : rules.opened? .code n = n.fieldText? "name" := by
    simp [rules, h]
  rw [isBlock_block.functions_of_name ih hadmits (if_pos h) hdecl hopened
    (fun _ => if_pos h), functionSteps]
  cases n.fieldText? "name" with
  | none => rfl
  | some name => simp [recordedBy, collectedBy, Declared.function?, recorded, bodyNodes]

theorem functions_method (className : String) (scopes : List String) (depth : Nat) :
    rules.functions scope (.method className) (scopes ++ [className]) n depth =
      (methodSteps scope scopes className n depth).flatMap (recordedBy scope scopes) := by
  have hdecl (name : String) :
      (functionDecl scope [] (some className) n name).qualifiedIn (scopes ++ [className])
          rules.separator =
        functionDecl scope scopes (some className) n name := rfl
  rw [isBlock_block.functions_of_name ih rfl rfl hdecl rfl (fun _ => rfl), methodSteps]
  cases n.fieldText? "name" with
  | none => rfl
  | some name => simp [recordedBy, collectedBy, Declared.function?, recorded, bodyNodes]

omit ih in
theorem field?_definition {c : Node} (h : isFunction (undecorated c)) (hself : ¬ isFunction c) :
    c.field? "definition" = some (undecorated c) := by
  unfold undecorated at h ⊢
  split at h
  · rename_i hkind
    rw [if_pos hkind]
    cases hfield : c.field? "definition" with
    | none =>
      rw [hfield] at h
      exact absurd h hself
    | some definition => rfl
  · exact absurd h hself

theorem functions_member {c : Node} (hc : c.size < n.size) (className : String)
    (scopes : List String) (depth : Nat) :
    rules.functions scope (memberRole className c) (scopes ++ [className]) c depth =
      (memberSteps scope scopes className depth c).flatMap (recordedBy scope scopes) := by
  unfold memberRole memberSteps
  -- A decorated method is looked for one node further down, and is recorded in the same way.
  by_cases hmethod : isFunction c
  · have hself : undecorated c = c := by
      rw [isFunction, beq_iff_eq] at hmethod
      rw [undecorated, hmethod, if_neg (by decide)]
    rw [hself, if_pos hmethod, if_pos hmethod]
    apply functions_method
    intro m hm
    exact ih m (hm.trans hc)
  rw [if_neg hmethod]
  by_cases hdecorated : isFunction (undecorated c)
  · have hfield := field?_definition hdecorated hmethod
    rw [if_pos hdecorated, if_pos hdecorated, functions_decorated, hfield, Option.elim_some]
    apply functions_method
    intro m hm
    exact ih m (hm.trans ((Node.size_lt_of_field hfield).trans hc))
  · rw [if_neg hdecorated, if_neg hdecorated, ih c hc]
    simp [recordedBy, collectedBy, recorded]

theorem functions_of_class {scopes : List String} {depth : Nat} (h : n.kind = "class_definition")
    (hadmits : rules.admits scope.limits .code scopes.length depth) :
    rules.functions scope .code scopes n depth =
      (classSteps scope scopes n depth).flatMap (recordedBy scope scopes) := by
  have hfunction : ¬ isFunction n := by
    rw [isFunction, h]
    decide
  have hnone : rules.function? scope .code scopes n = none := by
    simp [Rules.function?, rules, hfunction]
  rw [Rules.functions_of_field hadmits (fun _ => (if_neg hfunction).trans (if_pos h)), hnone]
  unfold classSteps
  cases hname : n.fieldText? "name" with
  | none => rfl
  | some name =>
    have hopened : rules.opened? .code n = some name := by
      simp [rules, h, hname]
    have htype (decl : ClassDecl) : recordedBy scope scopes (.record (.type n decl)) = [] := rfl
    rw [Option.map_some, Option.elim_some, hopened, List.flatMap_append, List.flatMap_singleton,
      htype, List.append_nil, List.flatMap_assoc]
    unfold bodyNodes
    cases hbody : n.field? "body" with
    | none => rfl
    | some body =>
      rw [Option.elim_some, Option.elim_some, functions_classBody]
      apply List.flatMap_congr
      intro c hc
      apply functions_member ih
      exact (Node.size_lt_of_mem_namedChildren hc).trans (Node.size_lt_of_field hbody)

theorem functions_of_other {scopes : List String} {depth : Nat} (hfunction : ¬ isFunction n)
    (hclass : n.kind ≠ "class_definition")
    (hadmits : rules.admits scope.limits .code scopes.length depth) :
    rules.functions scope .code scopes n depth =
      n.namedChildren.flatMap (recorded scope scopes · (depth + 1)) := by
  have hdeclared : rules.declared? scope .code n = none := by
    simp [rules, hfunction]
  have hopened : rules.opened? .code n = none := by
    simp [rules, hfunction, hclass]
  rw [Rules.functions_of_named hadmits hdeclared hopened
    (fun _ => (if_neg hfunction).trans (if_neg hclass))]
  apply List.flatMap_congr
  intro c hc
  exact ih c (Node.size_lt_of_mem_namedChildren hc) scopes (depth + 1)

theorem functions_plan (scopes : List String) (depth : Nat)
    (hadmits : rules.admits scope.limits .code scopes.length depth) :
    rules.functions scope .code scopes n depth =
      (plan scope scopes n depth).steps.flatMap (recordedBy scope scopes) ++
        if (plan scope scopes n depth).descend then
          n.namedChildren.flatMap (recorded scope scopes · (depth + 1))
        else [] := by
  unfold plan
  split
  · rename_i hkind
    rw [functions_of_isFunction ih (by simp [isFunction, hkind]) hadmits]
    simp
  · rename_i hkind
    rw [functions_of_class ih hkind hadmits]
    simp
  · rename_i hfunction hclass
    rw [functions_of_other ih (by simpa [isFunction] using hfunction) hclass hadmits]
    simp [Plan.descendOnly]

end Steps

theorem functions_eq_recorded (scope : Scope) (scopes : List String) (n : Node) (depth : Nat) :
    rules.functions scope .code scopes n depth = recorded scope scopes n depth := by
  apply Rules.functions_eq_collected
  · simp [rules]
  · intro n ih
    exact functions_plan ih

end Polyglot.Python
