import Polyglot.Extract.Scope
import Polyglot.Record.Declaration

/-!
This module contains the walk that collects declarations. A language says of each node what it
declares and which nodes stand inside a named scope that it opens; the walk does the rest.
-/

namespace Polyglot.Extract

/--
One thing to do at a node that declares something, in records of type `ρ`.
-/
inductive Step (ρ : Type) where
  /-- Record a declaration. -/
  | record (item : ρ)
  /-- Count a declaration that lacks a name. -/
  | skipped
  /-- Count a subtree that is too deep. -/
  | truncated
  /-- Look for declarations in `nodes`, inside the scope `name` and further ones. -/
  | inside (name : String) (more : List String) (nodes : List Node) (depth : Nat)

/--
What to do at a node, and whether the walk goes on below it.
-/
structure Plan (ρ : Type) where
  steps : List (Step ρ) := []
  descend : Bool := false

/--
A plan for nodes that declare nothing.
-/
def Plan.descendOnly : Plan ρ := { descend := true }

/--
A plan for every node, given the names of the scopes around it and its depth.
-/
abbrev Planner (ρ : Type) := Scope → (scopes : List String) → Node → (depth : Nat) → Plan ρ

/--
Record the declarations at `n` and below it. Nothing is recorded inside more named scopes than the
limit allows.
-/
def visit (planner : Planner ρ) (scope : Scope) (scopes : List String) (n : Node) (depth : Nat) :
    StateT (Array ρ) CountM Unit :=
  scope.enterScope scopes.length fun _ =>
    scope.walk n depth fun n depth => do
      let plan := planner scope scopes n depth
      plan.steps.forM fun step =>
        match step with
        | .record item => modify (·.push item)
        | .skipped => CountM.skippedDeclaration
        | .truncated => CountM.truncatedSubtree
        | .inside name more nodes depth =>
          nodes.forM fun n => visit planner scope (scopes ++ name :: more) n depth
      return plan.descend
termination_by scope.limits.maxScopeDepth + 1 - scopes.length
decreasing_by
  simp only [List.length_append, List.length_cons]
  omega

/--
The declarations at the given nodes and below them, in the order in which they are recorded.
-/
def declarations (planner : Planner ρ) (scope : Scope) (nodes : List Node) : CountM (List ρ) := do
  let (_, items) ← (nodes.forM fun n => visit planner scope [] n 0).run #[]
  return items.toList

/--
A function or a class, with the declaring node.
-/
inductive Declared where
  | function (node : Node) (decl : FunctionDecl)
  | type (node : Node) (decl : ClassDecl)

namespace Declared

def function? : Declared → Option FunctionDecl
  | function _ decl => some decl
  | type _ _ => none

def type? : Declared → Option ClassDecl
  | function _ _ => none
  | type _ decl => some decl

/--
The functions and the classes among `items`.
-/
def assemble (items : List Declared) : Declarations where
  functions := items.filterMap function?
  classes := items.filterMap type?

end Declared

end Polyglot.Extract
