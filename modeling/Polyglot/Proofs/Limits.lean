import Polyglot.Extract.Facts
import Polyglot.Proofs.Limits.Chains
import Polyglot.Proofs.Limits.Declarations

/-!
This module contains what the limits of an extraction mean for its result. Limits that are not hit
do not matter, and the limits on the depth of the tree and of named scopes only remove functions and
chains.
-/

namespace Polyglot

open CountM

namespace Language

variable (language : Language) {scope scope' : Scope} (hfile : scope'.file = scope.file)

include hfile

theorem relaxes_declarations (hle : scope.limits ≤ scope'.limits) (root : Node) :
    (language.declarations scope root).Relaxes (language.declarations scope' root) := by
  obtain ⟨-, -, htree, -⟩ := Limits.le_def.1 hle
  have hdeclared (planner : Extract.Planner Extract.Declared)
      (h : planner.Widens Extract.Declared.function? scope scope') :=
    congruence_relaxes.bind_pure_rel (Extract.relaxes_declarations h hle [root])
      Extract.Declared.assemble
  cases language with
  | rust =>
    exact congruence_relaxes.bind_pure_rel
      (Extract.relaxes_declarations (Rust.widens_plan hfile htree) hle _) _
  | typescript => exact hdeclared _ (TypeScript.widens_plan hfile _)
  | javascript => exact hdeclared _ (TypeScript.widens_plan hfile _)
  | python => exact hdeclared _ (Python.widens_plan hfile _)

theorem sublist_functions (htree : scope.limits.maxTreeDepth ≤ scope'.limits.maxTreeDepth)
    (hscope : scope.limits.maxScopeDepth ≤ scope'.limits.maxScopeDepth) (root : Node)
    (f f' : Fallbacks) :
    ((language.declarations scope root).run f).1.functions.Sublist
      ((language.declarations scope' root).run f').1.functions := by
  have hdeclared (planner : Extract.Planner Extract.Declared)
      (h : planner.Widens Extract.Declared.function? scope scope') :=
    Extract.sublist_declarations h htree hscope [root] f f'
  cases language with
  | rust => exact Extract.sublist_declarations (Rust.widens_plan hfile htree) htree hscope _ f f'
  | typescript => exact hdeclared _ (TypeScript.widens_plan hfile _)
  | javascript => exact hdeclared _ (TypeScript.widens_plan hfile _)
  | python => exact hdeclared _ (Python.widens_plan hfile _)

end Language

namespace Facts

theorem fallbacks_ofTree (language : Language) (scope : Scope) (root : Node) :
    (ofTree language scope root).fallbacks =
      Extract.costAt language.grammar scope (Extract.attempts language.grammar scope root 0) +
        { truncatedSubtrees := (scope.cutOff root 0).length } +
        (language.declarations scope root).cost := by
  have hle : scope.limits ≤ scope.limits :=
    ⟨Nat.le_refl _, Nat.le_refl _, Nat.le_refl _, Nat.le_refl _⟩
  have hchains := Extract.run_callChains_attempts language.grammar scope root
  have hdecls := (language.relaxes_declarations rfl hle root).additive
  change (ofTree.extraction language scope root).cost = _
  unfold ofTree.extraction
  rw [cost_bind (additive_of_run hchains) fun _ => additive_bind_pure hdecls _,
    cost_of_run hchains, cost_bind hdecls fun _ => additive_pure _, cost_pure, add_zero]

theorem callChains_ofTree (language : Language) (scope : Scope) (root : Node) :
    (ofTree language scope root).callChains =
      (Extract.chainsAt language.grammar scope
        (Extract.attempts language.grammar scope root 0)).map (·.2) := by
  change ((Extract.callChains language.grammar scope root).run 0).1 = _
  rw [Extract.run_callChains_attempts]

/--
The tree of a function `f` that calls `g(1)` and holds a function `h`.
-/
def nestedFunctions : Tree :=
  .node ⟨"module", true, false, none, 0, 36⟩ [
    .node ⟨"function_definition", true, false, none, 0, 36⟩ [
      .node ⟨"def", false, false, none, 0, 3⟩ [],
      .node ⟨"identifier", true, false, some "name", 4, 5⟩ [],
      .node ⟨"parameters", true, false, some "parameters", 5, 7⟩ [],
      .node ⟨":", false, false, none, 7, 8⟩ [],
      .node ⟨"block", true, false, some "body", 11, 36⟩ [
        .node ⟨"expression_statement", true, false, none, 11, 15⟩ [
          .node ⟨"call", true, false, none, 11, 15⟩ [
            .node ⟨"identifier", true, false, some "function", 11, 12⟩ [],
            .node ⟨"argument_list", true, false, some "arguments", 12, 15⟩ [
              .node ⟨"integer", true, false, none, 13, 14⟩ []]]],
        .node ⟨"function_definition", true, false, none, 18, 36⟩ [
          .node ⟨"def", false, false, none, 18, 21⟩ [],
          .node ⟨"identifier", true, false, some "name", 22, 23⟩ [],
          .node ⟨"parameters", true, false, some "parameters", 23, 25⟩ [],
          .node ⟨":", false, false, none, 25, 26⟩ [],
          .node ⟨"block", true, false, some "body", 31, 36⟩ [
            .node ⟨"pass_statement", true, false, none, 31, 35⟩ []]]]]]

def nestedFunctionsRoot : Node :=
  .root (.ofString "def f():\n  g(1)\n  def h():\n    pass\n") nestedFunctions

/--
Smaller limits on the depth of the tree and of named scopes remove functions and chains, and change
nothing about the others.
-/
theorem sublist_ofTree_of_depth_le (language : Language) (file : String) (root : Node)
    {c c' : Limits} (hchain : c.maxChainDepth = c'.maxChainDepth)
    (harg : c.maxArgDepth = c'.maxArgDepth) (htree : c.maxTreeDepth ≤ c'.maxTreeDepth)
    (hscope : c.maxScopeDepth ≤ c'.maxScopeDepth) :
    (ofTree language ⟨file, c⟩ root).functions.Sublist
      (ofTree language ⟨file, c'⟩ root).functions ∧
    (ofTree language ⟨file, c⟩ root).callChains.Sublist
      (ofTree language ⟨file, c'⟩ root).callChains := by
  have hfile : (Scope.mk file c').file = (Scope.mk file c).file := rfl
  constructor
  · exact language.sublist_functions hfile htree hscope root _ _
  · exact Extract.sublist_callChains language.grammar hfile hchain.symm harg.symm htree root _ _

theorem nestedFunctions_sublist :
    let c : Limits := { maxTreeDepth := 4, maxScopeDepth := 0 }
    let facts := ofTree .python ⟨"a.py", c⟩ nestedFunctionsRoot
    let facts' := ofTree .python ⟨"a.py", {}⟩ nestedFunctionsRoot
    facts.functions.map (·.qualifiedName) = ["f"] ∧
    facts'.functions.map (·.qualifiedName) = ["f", "f.h"] ∧
    facts.functions.Sublist facts'.functions ∧ facts.callChains.Sublist facts'.callChains := by
  intro c facts facts'
  have hchain : c.maxChainDepth = ({} : Limits).maxChainDepth := rfl
  have harg : c.maxArgDepth = ({} : Limits).maxArgDepth := rfl
  have htree : c.maxTreeDepth ≤ ({} : Limits).maxTreeDepth := by decide
  have hscope : c.maxScopeDepth ≤ ({} : Limits).maxScopeDepth := by decide
  refine ⟨by decide +kernel, by decide +kernel, ?_⟩
  exact sublist_ofTree_of_depth_le .python "a.py" nestedFunctionsRoot hchain harg htree hscope

end Facts

end Polyglot
