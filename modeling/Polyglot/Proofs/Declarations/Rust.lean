import Polyglot.Extract.Declarations.Rust
import Polyglot.Proofs.Declarations.Traversal

/-!
This module contains the functions of Rust as a plain traversal. Modules, functions, traits and impl
blocks are the named scopes.
-/

namespace Polyglot.Rust

open Extract

/--
What a node means to the search for functions.
-/
inductive Role where
  /-- An item, a statement or an expression, which may declare something. -/
  | code
  /-- The body of a module or a function. -/
  | block
  /-- The body of a trait or an impl block. -/
  | memberBody (owner : Owner)
  | member (owner : Owner)

/--
The scope that an impl block for the given type opens.
-/
def implScope (n : Node) (type : String) : String :=
  match n.fieldText? "trait" with
  | none => Text.baseTypeName type
  | some t => "<" ++ Text.baseTypeName type ++ " as " ++ Text.baseTypeName t ++ ">"

def implOwner (n : Node) (type : String) : Owner :=
  match n.fieldText? "trait" with
  | none => { className := Text.baseTypeName type, exported := none }
  | some t =>
    { className := Text.baseTypeName t ++ " for " ++ Text.baseTypeName type, exported := some true }

def isType (n : Node) : Bool := ["struct_item", "enum_item", "union_item"].contains n.kind

def rules : Rules Role where
  separator := separator
  admits limits role nesting depth :=
    match role with
    | .code => nesting ≤ limits.maxScopeDepth ∧ depth ≤ limits.maxTreeDepth
    | .memberBody _ => depth ≤ limits.maxTreeDepth
    | _ => true
  declared? scope role n :=
    match role with
    | .code =>
      if isFunction n then (n.fieldText? "name").map (functionDecl scope [] none n) else none
    | .member owner => (n.fieldText? "name").map (functionDecl scope [] (some owner) n)
    | _ => none
  opened? role n :=
    match role with
    | .code =>
      if isFunction n ∨ n.kind = "mod_item" ∨ n.kind = "trait_item" then n.fieldText? "name"
      else if n.kind = "impl_item" then (n.fieldText? "type").map (implScope n)
      else none
    | .member _ => n.fieldText? "name"
    | _ => none
  role? role depth n c :=
    match role with
    | .code =>
      if isFunction n ∨ n.kind = "mod_item" then
        if n.isField "body" c then (n.fieldText? "name").map fun _ => (.block, depth + 1) else none
      else if n.kind = "trait_item" then
        if n.isField "body" c then
          (n.fieldText? "name").map fun name => (.memberBody ⟨name, some (isPub n)⟩, depth + 1)
        else none
      else if n.kind = "impl_item" then
        if n.isField "body" c then
          (n.fieldText? "type").map fun type => (.memberBody (implOwner n type), depth + 1)
        else none
      else if isType n then none
      else if c.isNamed then some (.code, depth + 1) else none
    | .block => if c.isNamed then some (.code, depth) else none
    | .memberBody owner =>
      if c.isNamed then if isFunction c then some (.member owner, depth) else none else none
    | .member _ =>
      if n.isField "body" c then (n.fieldText? "name").map fun _ => (.block, depth + 1) else none

theorem isBlock_block : rules.IsBlock .block .code where
  admits _ _ _ := rfl
  declared? _ _ := rfl
  opened? _ := rfl
  role? _ _ _ := rfl

theorem functions_memberBody (scope : Scope) (scopes : List String) (n : Node) {depth : Nat}
    (owner : Owner) (h : depth ≤ scope.limits.maxTreeDepth) :
    rules.functions scope (.memberBody owner) scopes n depth =
      (n.namedChildren.filter isFunction).flatMap
        (rules.functions scope (.member owner) scopes · depth) := by
  rw [Rules.functions_of_named (decide_eq_true h) rfl rfl (fun _ => rfl), flatMap_filter]
  congr 1
  funext c
  split
  · rfl
  · rfl

/--
The functions that the walk for declarations records from a node on.
-/
def recorded (scope : Scope) (scopes : List String) (n : Node) (depth : Nat) :
    List FunctionDecl :=
  collected Item.function? plan scope scopes n depth

def recordedBy (scope : Scope) (scopes : List String) : Step Item → List FunctionDecl :=
  collectedBy Item.function? plan scope scopes

section Steps

variable {scope : Scope} {n : Node} (ih : ∀ m, m.size < n.size → ∀ scopes depth,
  rules.functions scope .code scopes m depth = recorded scope scopes m depth)

include ih

theorem functions_of_isFunction {scopes : List String} {depth : Nat} (h : isFunction n)
    (hadmits : rules.admits scope.limits .code scopes.length depth) :
    rules.functions scope .code scopes n depth =
      (functionSteps scope scopes n depth).flatMap (recordedBy scope scopes) := by
  have hdecl (name : String) :
      (functionDecl scope [] none n name).qualifiedIn scopes rules.separator =
        functionDecl scope scopes none n name := by
    simp [FunctionDecl.qualifiedIn, functionDecl, rules]
  have hopened : rules.opened? .code n = n.fieldText? "name" := by
    simp [rules, h]
  rw [isBlock_block.functions_of_name ih hadmits (if_pos h) hdecl hopened
    (fun _ => if_pos (.inl h)), functionSteps]
  cases n.fieldText? "name" with
  | none => rfl
  | some name => simp [recordedBy, collectedBy, Item.function?, recorded, bodyNodes]

theorem functions_member (owner : Owner) (outer : String) (scopes : List String) (depth : Nat) :
    rules.functions scope (.member owner) (scopes ++ [outer]) n depth =
      (memberSteps scope scopes outer owner depth n).flatMap (recordedBy scope scopes) := by
  have hdecl (name : String) :
      (functionDecl scope [] (some owner) n name).qualifiedIn (scopes ++ [outer]) rules.separator =
        functionDecl scope (scopes ++ [outer]) (some owner) n name := rfl
  rw [isBlock_block.functions_of_name ih rfl rfl hdecl rfl (fun _ => rfl), memberSteps]
  cases n.fieldText? "name" with
  | none => rfl
  | some name => simp [recordedBy, collectedBy, Item.function?, recorded, bodyNodes]

theorem functions_members (owner : Owner) (outer : String) (scopes : List String) (depth : Nat) :
    ((n.field? "body").elim [] fun body =>
        rules.functions scope (.memberBody owner) (scopes ++ [outer]) body depth) =
      (members scope scopes outer owner n depth).1.flatMap (recordedBy scope scopes) := by
  unfold members
  cases hbody : n.field? "body" with
  | none => rfl
  | some body =>
    -- The number of scopes does not matter here: it is checked in the bodies of the members.
    by_cases hdepth : scope.limits.maxTreeDepth < depth
    · simp only [if_pos hdepth, Option.elim_some]
      rw [Rules.functions_of_not_admits (by simpa [rules] using hdepth)]
      rfl
    · simp only [if_neg hdepth, Option.elim_some]
      rw [functions_memberBody _ _ _ _ (by omega), List.flatMap_assoc]
      apply List.flatMap_congr
      intro c hc
      apply functions_member
      intro m hm
      have hc := Node.size_lt_of_mem_namedChildren (List.mem_filter.1 hc).1
      exact ih m (hm.trans (hc.trans (Node.size_lt_of_field hbody)))

theorem functions_of_module {scopes : List String} {depth : Nat} (h : n.kind = "mod_item")
    (hadmits : rules.admits scope.limits .code scopes.length depth) :
    rules.functions scope .code scopes n depth =
      (moduleSteps n depth).flatMap (recordedBy scope scopes) := by
  have hnone : rules.function? scope .code scopes n = none := by
    simp [Rules.function?, rules, isFunction, h]
  have hopened : rules.opened? .code n = n.fieldText? "name" := by
    simp [rules, h]
  rw [Rules.functions_of_field hadmits (fun _ => if_pos (.inr h)), hnone, hopened, moduleSteps]
  cases n.fieldText? "name" with
  | none => rfl
  | some name =>
    rw [Option.map_some, Option.elim_some, isBlock_block.functions_body ih]
    simp [recordedBy, collectedBy, recorded, bodyNodes]

theorem functions_of_trait {scopes : List String} {depth : Nat} (h : n.kind = "trait_item")
    (hadmits : rules.admits scope.limits .code scopes.length depth) :
    rules.functions scope .code scopes n depth =
      (traitSteps scope scopes n depth).flatMap (recordedBy scope scopes) := by
  have hnone : rules.function? scope .code scopes n = none := by
    simp [Rules.function?, rules, isFunction, h]
  have hblock : ¬ (isFunction n ∨ n.kind = "mod_item") := by
    simp [isFunction, h]
  rw [Rules.functions_of_field hadmits (fun _ => (if_neg hblock).trans (if_pos h)), hnone]
  unfold traitSteps
  cases hname : n.fieldText? "name" with
  | none => rfl
  | some name =>
    have hopened : rules.opened? .code n = some name := by
      simp [rules, h, hname]
    rw [Option.map_some, Option.elim_some, hopened]
    simp only [Option.toList_some, functions_members ih, List.flatMap_append]
    simp [recordedBy, collectedBy, Item.function?]

omit ih in
theorem implSteps_eq (scopes : List String) (depth : Nat) {type : String}
    (h : n.fieldText? "type" = some type) :
    ∃ block, implSteps scope scopes n depth =
      (members scope scopes (implScope n type) (implOwner n type) n (depth + 1)).1 ++
        [.record (.impl n block)] := by
  unfold implSteps implScope implOwner
  rw [h]
  cases n.fieldText? "trait" with
  | none => exact ⟨_, rfl⟩
  | some t => exact ⟨_, rfl⟩

theorem functions_of_impl {scopes : List String} {depth : Nat} (h : n.kind = "impl_item")
    (hadmits : rules.admits scope.limits .code scopes.length depth) :
    rules.functions scope .code scopes n depth =
      (implSteps scope scopes n depth).flatMap (recordedBy scope scopes) := by
  have hnone : rules.function? scope .code scopes n = none := by
    simp [Rules.function?, rules, isFunction, h]
  have hblock : ¬ (isFunction n ∨ n.kind = "mod_item") := by
    simp [isFunction, h]
  have htrait : n.kind ≠ "trait_item" := by
    simp [h]
  rw [Rules.functions_of_field hadmits
    (fun _ => (if_neg hblock).trans ((if_neg htrait).trans (if_pos h))), hnone]
  cases htype : n.fieldText? "type" with
  | none =>
    rw [implSteps, htype]
    rfl
  | some type =>
    have hopened : rules.opened? .code n = some (implScope n type) := by
      simp [rules, isFunction, h, htype]
    obtain ⟨block, hsteps⟩ := implSteps_eq scopes depth htype
    rw [Option.map_some, Option.elim_some, hopened, hsteps]
    simp only [Option.toList_some, functions_members ih, List.flatMap_append]
    simp [recordedBy, collectedBy, Item.function?]

omit ih in
theorem functions_of_type {scopes : List String} {depth : Nat} (h : isType n)
    (hadmits : rules.admits scope.limits .code scopes.length depth) :
    rules.functions scope .code scopes n depth =
      (typeSteps scope scopes n).flatMap (recordedBy scope scopes) := by
  have hkinds : n.kind = "struct_item" ∨ n.kind = "enum_item" ∨ n.kind = "union_item" := by
    simpa [isType] using h
  have hfunction : ¬ isFunction n := by
    rcases hkinds with hkind | hkind | hkind <;> simp [isFunction, hkind]
  have hother : n.kind ≠ "mod_item" ∧ n.kind ≠ "trait_item" ∧ n.kind ≠ "impl_item" := by
    rcases hkinds with hkind | hkind | hkind <;> simp [hkind]
  have hnone : rules.function? scope .code scopes n = none := by
    simp [Rules.function?, rules, hfunction]
  rw [Rules.functions_of_none hadmits (fun _ => by simp [rules, hfunction, hother, h]), hnone]
  unfold typeSteps
  cases n.fieldText? "name" with
  | none => rfl
  | some name => rfl

theorem functions_of_other {scopes : List String} {depth : Nat} (hfunction : ¬ isFunction n)
    (hmodule : n.kind ≠ "mod_item") (htrait : n.kind ≠ "trait_item")
    (himpl : n.kind ≠ "impl_item") (htype : ¬ isType n)
    (hadmits : rules.admits scope.limits .code scopes.length depth) :
    rules.functions scope .code scopes n depth =
      n.namedChildren.flatMap (recorded scope scopes · (depth + 1)) := by
  have hrole : ∀ c, rules.role? .code depth n c =
      if c.isNamed then some (.code, depth + 1) else none := by
    simp [rules, hfunction, hmodule, htrait, himpl, htype]
  have hdeclared : rules.declared? scope .code n = none := by
    simp [rules, hfunction]
  have hopened : rules.opened? .code n = none := by
    simp [rules, hfunction, hmodule, htrait, himpl]
  rw [Rules.functions_of_named hadmits hdeclared hopened hrole]
  apply List.flatMap_congr
  intro c hc
  exact ih c (Node.size_lt_of_mem_namedChildren hc) scopes (depth + 1)

theorem functions_plan (scopes : List String) (depth : Nat)
    (hadmits : rules.admits scope.limits .code scopes.length depth) :
    rules.functions scope .code scopes n depth =
      (plan scope scopes n depth).steps.flatMap (recordedBy scope scopes) ++
        if (plan scope scopes n depth).descend then
          n.namedChildren.flatMap (recorded scope scopes · (depth + 1))
        else [] := by
  unfold plan
  split
  · rename_i hkind
    rw [functions_of_isFunction ih (by simp [isFunction, hkind]) hadmits]
    simp
  · rename_i hkind
    rw [functions_of_isFunction ih (by simp [isFunction, hkind]) hadmits]
    simp
  · rename_i hkind
    rw [functions_of_impl ih hkind hadmits]
    simp
  · rename_i hkind
    rw [functions_of_trait ih hkind hadmits]
    simp
  · rename_i hkind
    rw [functions_of_type (by simp [isType, hkind]) hadmits]
    simp
  · rename_i hkind
    rw [functions_of_type (by simp [isType, hkind]) hadmits]
    simp
  · rename_i hkind
    rw [functions_of_type (by simp [isType, hkind]) hadmits]
    simp
  · rename_i hkind
    rw [functions_of_module ih hkind hadmits]
    simp
  · rename_i h₁ h₂ himpl htrait h₃ h₄ h₅ hmodule
    have hfunction : ¬ isFunction n := by
      simpa [isFunction] using ⟨h₁, h₂⟩
    have htype : ¬ isType n := by
      simpa [isType] using ⟨h₃, h₄, h₅⟩
    rw [functions_of_other ih hfunction hmodule htrait himpl htype hadmits]
    simp [Plan.descendOnly]

end Steps

theorem functions_eq_recorded (scope : Scope) (scopes : List String) (n : Node) (depth : Nat) :
    rules.functions scope .code scopes n depth = recorded scope scopes n depth := by
  apply Rules.functions_eq_collected
  · simp [rules]
  · intro n ih
    exact functions_plan ih

end Polyglot.Rust
