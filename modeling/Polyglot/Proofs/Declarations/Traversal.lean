import Polyglot.Proofs.Declarations.Trace
import Polyglot.Proofs.Lists
import Polyglot.Text.TypeName

/-!
This module contains the plain recursive search for functions: a traversal in preorder that carries
the names of the scopes around a node. What a node means depends on its role, which it has from its
parent; a language is a set of rules for roles. A child without a role is passed over with all that
is below it, so the traversal does not come by every node. The functions are found at nodes in
preorder, at most one at each node.
-/

namespace Polyglot

namespace Node

/--
Whether `c` is the child that `n` holds under the given field name.
-/
def isField (n : Node) (name : String) (c : Node) : Bool :=
  (n.field? name).any (·.path == c.path)

theorem flatMap_isField (n : Node) (name : String) (F : Node → List β) :
    (n.children.flatMap fun c => if n.isField name c then F c else []) =
      (n.field? name).elim [] F := by
  unfold isField
  cases hfield : n.field? name with
  | none =>
    rw [Option.elim_none, List.flatMap_eq_nil_iff]
    intro c _
    rfl
  | some d =>
    have hd : d ∈ n.children := List.mem_of_find?_eq_some hfield
    obtain ⟨i, hi, huniq⟩ := path_of_mem_children hd
    have hiff : ∀ c ∈ n.children, (some d).any (·.path == c.path) = true ↔ c = d := by
      intro c hc
      rw [Option.any_some, beq_iff_eq]
      constructor
      · intro hpath
        exact huniq c hc (hpath ▸ hi)
      · rintro rfl
        rfl
    -- The children are different nodes, so there is one such child.
    have hindex := pairwise_index_children n
    obtain ⟨before, after, hsplit⟩ := List.append_of_mem hd
    rw [hsplit] at hindex hiff ⊢
    rw [List.pairwise_append, List.pairwise_cons] at hindex
    have hother : ∀ c ∈ before ++ after, (some d).any (·.path == c.path) = false := by
      intro c hc
      rw [Bool.eq_false_iff, Ne]
      have hsize := d.size_pos
      rcases List.mem_append.1 hc with hc | hc
      · rw [hiff c (List.mem_append_left _ hc)]
        rintro rfl
        have := hindex.2.2 c hc c List.mem_cons_self
        omega
      · rw [hiff c (List.mem_append_right _ (List.mem_cons_of_mem _ hc))]
        rintro rfl
        have := hindex.2.1.1 c hc
        omega
    have hnone (cs : List Node) (hcs : ∀ c ∈ cs, c ∈ before ++ after) :
        (cs.flatMap fun c => if (some d).any (·.path == c.path) then F c else []) = [] := by
      rw [List.flatMap_eq_nil_iff]
      intro c hc
      rw [hother c (hcs c hc), if_neg Bool.false_ne_true]
    have hself : (some d).any (·.path == d.path) = true := by simp
    rw [List.flatMap_append, List.flatMap_cons, hnone before (fun c => List.mem_append_left _),
      hnone after (fun c => List.mem_append_right _), hself, if_pos rfl, List.nil_append,
      List.append_nil, Option.elim_some]

end Node

/--
A function as it is called inside the given scopes.
-/
def FunctionDecl.qualifiedIn (decl : FunctionDecl) (scopes : List String) (separator : String) :
    FunctionDecl :=
  { decl with qualifiedName := Text.qualify scopes decl.name separator }

namespace Extract

/--
How a language looks for functions. A node is looked at in a role, at a certain depth and inside
certain named scopes.
-/
structure Rules (κ : Type) where
  separator : String
  /-- Whether the limits allow to look at a node inside so many scopes. -/
  admits : Limits → κ → (nesting depth : Nat) → Bool
  /-- The function that a node declares, up to its qualified name. -/
  declared? : Scope → κ → Node → Option FunctionDecl
  /-- The named scope that a node opens for the nodes below it. -/
  opened? : κ → Node → Option String
  /-- The role and the depth of a child, unless it is passed over. -/
  role? : κ → (depth : Nat) → (n c : Node) → Option (κ × Nat)

/--
A function with the node that declares it and the names of the scopes around it, outermost first.
-/
structure FunctionSite where
  node : Node
  scopes : List String
  decl : FunctionDecl

namespace Rules

variable {κ : Type} (rules : Rules κ) (scope : Scope)

/--
The function that a node declares inside the given scopes.
-/
def function? (role : κ) (scopes : List String) (n : Node) : Option FunctionDecl :=
  (rules.declared? scope role n).map (·.qualifiedIn scopes rules.separator)

/--
The functions at a node and below it: the one that the node declares, and those of its children,
inside the scope that it opens.
-/
def traverse (role : κ) (scopes : List String) (n : Node) (depth : Nat) : List FunctionSite :=
  if rules.admits scope.limits role scopes.length depth then
    ((rules.function? scope role scopes n).map (⟨n, scopes, ·⟩)).toList ++
      n.children.attach.flatMap fun ⟨c, _⟩ =>
        (rules.role? role depth n c).elim [] fun p =>
          traverse p.1 (scopes ++ (rules.opened? role n).toList) c p.2
  else []
termination_by n.size
decreasing_by exact Node.size_lt_of_mem_children ‹_›

theorem traverse_eq (role : κ) (scopes : List String) (n : Node) (depth : Nat) :
    rules.traverse scope role scopes n depth =
      if rules.admits scope.limits role scopes.length depth then
        ((rules.function? scope role scopes n).map (⟨n, scopes, ·⟩)).toList ++
          n.children.flatMap fun c =>
            (rules.role? role depth n c).elim [] fun p =>
              rules.traverse scope p.1 (scopes ++ (rules.opened? role n).toList) c p.2
      else [] := by
  rw [traverse]
  simp

theorem sublist_preorder (role : κ) (scopes : List String) (n : Node) (depth : Nat) :
    ((rules.traverse scope role scopes n depth).map (·.node)).Sublist n.preorder := by
  induction n using Node.sizeInduction generalizing role scopes depth with
  | step n ih =>
    rw [traverse_eq, Node.preorder_eq]
    split
    · rw [List.map_append, List.map_flatMap]
      change List.Sublist _ ([n] ++ n.children.flatMap Node.preorder)
      apply List.Sublist.append
      · cases rules.function? scope role scopes n with
        | none => exact List.nil_sublist _
        | some decl => exact List.Sublist.refl _
      · apply List.Sublist.flatMap_right
        intro c hc
        cases rules.role? role depth n c with
        | none => exact List.nil_sublist _
        | some p => exact ih c (Node.size_lt_of_mem_children hc) p.1 _ p.2
    · exact List.nil_sublist _

theorem qualifiedName_of_mem {role : κ} {scopes : List String} {n : Node} {depth : Nat}
    {e : FunctionSite} (h : e ∈ rules.traverse scope role scopes n depth) :
    e.decl.qualifiedName = Text.qualify e.scopes e.decl.name rules.separator := by
  induction n using Node.sizeInduction generalizing role scopes depth with
  | step n ih =>
    rw [traverse_eq] at h
    split at h
    · rw [List.mem_append, List.mem_flatMap] at h
      rcases h with h | ⟨c, hc, h⟩
      · rw [Option.mem_toList, Option.map_eq_some_iff] at h
        obtain ⟨decl, hdecl, rfl⟩ := h
        rw [function?, Option.map_eq_some_iff] at hdecl
        obtain ⟨decl, -, rfl⟩ := hdecl
        rfl
      · cases hrole : rules.role? role depth n c with
        | none =>
          rw [hrole] at h
          cases h
        | some p =>
          rw [hrole] at h
          exact ih c (Node.size_lt_of_mem_children hc) h
    · cases h

/--
The functions without their nodes.
-/
def functions (role : κ) (scopes : List String) (n : Node) (depth : Nat) : List FunctionDecl :=
  (rules.traverse scope role scopes n depth).map (·.decl)

section Functions

variable {rules scope} {role : κ} {scopes : List String} {n : Node} {depth : Nat}

theorem functions_of_not_admits (h : ¬ rules.admits scope.limits role scopes.length depth) :
    rules.functions scope role scopes n depth = [] := by
  rw [functions, traverse_eq, if_neg h, List.map_nil]

variable (hadmits : rules.admits scope.limits role scopes.length depth)

include hadmits

theorem functions_eq :
    rules.functions scope role scopes n depth =
      (rules.function? scope role scopes n).toList ++
        n.children.flatMap fun c =>
          (rules.role? role depth n c).elim [] fun p =>
            rules.functions scope p.1 (scopes ++ (rules.opened? role n).toList) c p.2 := by
  rw [functions, traverse_eq, if_pos hadmits, List.map_append, List.map_flatMap]
  congr 1
  · cases rules.function? scope role scopes n with
    | none => rfl
    | some decl => rfl
  · congr 1
    funext c
    cases rules.role? role depth n c with
    | none => rfl
    | some p => rfl

theorem functions_of_none (hrole : ∀ c, rules.role? role depth n c = none) :
    rules.functions scope role scopes n depth = (rules.function? scope role scopes n).toList := by
  rw [functions_eq hadmits]
  simp [hrole]

theorem functions_of_field {name : String} {p : Option (κ × Nat)}
    (hrole : ∀ c, rules.role? role depth n c = if n.isField name c then p else none) :
    rules.functions scope role scopes n depth =
      (rules.function? scope role scopes n).toList ++
        p.elim [] fun p =>
          (n.field? name).elim [] fun c =>
            rules.functions scope p.1 (scopes ++ (rules.opened? role n).toList) c p.2 := by
  cases p with
  | none =>
    rw [functions_of_none hadmits, Option.elim_none, List.append_nil]
    intro c
    rw [hrole, ite_self]
  | some p =>
    rw [functions_eq hadmits, Option.elim_some, ← Node.flatMap_isField]
    congr 2
    funext c
    rw [hrole]
    split
    · rfl
    · rfl

theorem functions_of_named {r : Node → Option (κ × Nat)}
    (hdeclared : rules.declared? scope role n = none) (hopened : rules.opened? role n = none)
    (hrole : ∀ c, rules.role? role depth n c = if c.isNamed then r c else none) :
    rules.functions scope role scopes n depth =
      n.namedChildren.flatMap fun c =>
        (r c).elim [] fun p => rules.functions scope p.1 scopes c p.2 := by
  rw [functions_eq hadmits, Node.namedChildren, flatMap_filter, function?, hdeclared, hopened,
    Option.map_none, Option.toList_none, Option.toList_none, List.nil_append, List.append_nil]
  congr 1
  funext c
  rw [hrole]
  split
  · rfl
  · rfl

end Functions

/--
A node in the role `block` stands for the nodes in it, which have the role `code`.
-/
structure IsBlock (rules : Rules κ) (block code : κ) : Prop where
  admits (limits : Limits) (nesting depth : Nat) : rules.admits limits block nesting depth
  declared? (scope : Scope) (n : Node) : rules.declared? scope block n = none
  opened? (n : Node) : rules.opened? block n = none
  role? (depth : Nat) (n c : Node) :
    rules.role? block depth n c = if c.isNamed then some (code, depth) else none

namespace IsBlock

variable {rules : Rules κ} {block code : κ} (hblock : rules.IsBlock block code)

include hblock

theorem functions_eq (scope : Scope) (scopes : List String) (n : Node) (depth : Nat) :
    rules.functions scope block scopes n depth =
      n.namedChildren.flatMap (rules.functions scope code scopes · depth) := by
  rw [functions_of_named (hblock.admits _ _ _) (hblock.declared? scope n) (hblock.opened? n)
    (hblock.role? depth n)]
  rfl

variable {scope : Scope} {F : List String → Node → Nat → List FunctionDecl} {n : Node}
  (ih : ∀ m, m.size < n.size → ∀ scopes depth,
    rules.functions scope code scopes m depth = F scopes m depth)

include ih

theorem functions_body (scopes : List String) (depth : Nat) :
    ((n.field? "body").elim [] fun body => rules.functions scope block scopes body depth) =
      ((n.field? "body").elim [] Node.namedChildren).flatMap (F scopes · depth) := by
  cases hbody : n.field? "body" with
  | none => rfl
  | some body =>
    rw [Option.elim_some, Option.elim_some, hblock.functions_eq]
    apply List.flatMap_congr
    intro c hc
    apply ih
    exact (Node.size_lt_of_mem_namedChildren hc).trans (Node.size_lt_of_field hbody)

/--
The functions at a node that declares one under its name: this function, and those in the body,
inside a scope with the name.
-/
theorem functions_of_name {role : κ} {scopes : List String} {depth : Nat}
    {decl decl' : String → FunctionDecl}
    (hadmits : rules.admits scope.limits role scopes.length depth)
    (hdeclared : rules.declared? scope role n = (n.fieldText? "name").map decl)
    (hdecl : ∀ name, (decl name).qualifiedIn scopes rules.separator = decl' name)
    (hopened : rules.opened? role n = n.fieldText? "name")
    (hrole : ∀ c, rules.role? role depth n c =
      if n.isField "body" c then (n.fieldText? "name").map fun _ => (block, depth + 1) else none) :
    rules.functions scope role scopes n depth =
      (n.fieldText? "name").elim [] fun name =>
        decl' name :: ((n.field? "body").elim [] Node.namedChildren).flatMap
          (F (scopes ++ [name]) · (depth + 1)) := by
  rw [functions_of_field hadmits hrole, function?, hdeclared, hopened]
  cases n.fieldText? "name" with
  | none => rfl
  | some name =>
    rw [Option.map_some, Option.map_some, Option.map_some, hdecl, Option.elim_some,
      Option.elim_some, hblock.functions_body ih]
    rfl

end IsBlock

/--
The traversal finds what a walk for declarations records, if they agree at every node on the
assumption that they agree below it.
-/
theorem functions_eq_collected {ρ : Type} {planner : Planner ρ} {p : ρ → Option FunctionDecl}
    {rules : Rules κ} {scope : Scope} {code : κ}
    (hadmits : ∀ nesting depth, rules.admits scope.limits code nesting depth ↔
      nesting ≤ scope.limits.maxScopeDepth ∧ depth ≤ scope.limits.maxTreeDepth)
    (hnode : ∀ n, (∀ m, m.size < n.size → ∀ scopes depth,
        rules.functions scope code scopes m depth = collected p planner scope scopes m depth) →
      ∀ scopes depth, rules.admits scope.limits code scopes.length depth →
        rules.functions scope code scopes n depth =
          (planner scope scopes n depth).steps.flatMap (collectedBy p planner scope scopes) ++
            if (planner scope scopes n depth).descend then
              n.namedChildren.flatMap (collected p planner scope scopes · (depth + 1))
            else [])
    (scopes : List String) (n : Node) (depth : Nat) :
    rules.functions scope code scopes n depth = collected p planner scope scopes n depth := by
  induction n using Node.sizeInduction generalizing scopes depth with
  | step n ih =>
    -- Beyond the limits there is nothing on either side, whatever the node is.
    by_cases h : rules.admits scope.limits code scopes.length depth
    · rw [hnode n ih scopes depth h, collected_eq p ((hadmits _ _).1 h)]
    · rw [functions_of_not_admits h, collected_of_limits p]
      rwa [← hadmits]

end Rules

end Extract

end Polyglot
