import Polyglot.Extract.Facts
import Polyglot.Proofs.Declarations.Python
import Polyglot.Proofs.Declarations.Rust
import Polyglot.Proofs.Declarations.TypeScript

/-!
This module contains the search for functions in all languages. It finds what a plain recursive
traversal in preorder finds, and a function is called by the names of the scopes around it.
-/

namespace Polyglot.Language

open Extract

/--
The functions below `root`, by a plain traversal with the rules of the language.
-/
def traversal (language : Language) (scope : Scope) (root : Node) : List FunctionSite :=
  match language with
  | rust => Rust.rules.traverse scope .block [] root 0
  | typescript | javascript => TypeScript.rules.traverse scope .code [] root 0
  | python => Python.rules.traverse scope .code [] root 0

theorem functions_rust (scope : Scope) (root : Node) (f : Fallbacks) :
    ((Rust.declarations scope root).run f).1.functions =
      Rust.rules.functions scope .block [] root 0 := by
  rw [Rust.isBlock_block.functions_eq]
  simp only [Rust.functions_eq_recorded]
  exact filterMap_declarations Rust.Item.function? Rust.plan scope root.namedChildren f

theorem functions_typescript (scope : Scope) (root : Node) (f : Fallbacks) :
    ((TypeScript.declarations scope root).run f).1.functions =
      TypeScript.rules.functions scope .code [] root 0 := by
  rw [TypeScript.functions_eq_recorded,
    ← List.flatMap_singleton (TypeScript.recorded scope [] · 0)]
  exact filterMap_declarations Declared.function? TypeScript.plan scope [root] f

theorem functions_python (scope : Scope) (root : Node) (f : Fallbacks) :
    ((Python.declarations scope root).run f).1.functions =
      Python.rules.functions scope .code [] root 0 := by
  rw [Python.functions_eq_recorded, ← List.flatMap_singleton (Python.recorded scope [] · 0)]
  exact filterMap_declarations Declared.function? Python.plan scope [root] f

theorem functions_eq_map_traversal (language : Language) (scope : Scope) (root : Node)
    (f : Fallbacks) :
    ((language.declarations scope root).run f).1.functions =
      (language.traversal scope root).map (·.decl) := by
  cases language with
  | rust => exact functions_rust scope root f
  | typescript => exact functions_typescript scope root f
  | javascript => exact functions_typescript scope root f
  | python => exact functions_python scope root f

theorem sublist_preorder_traversal (language : Language) (scope : Scope) (root : Node) :
    ((language.traversal scope root).map (·.node)).Sublist root.preorder := by
  cases language with
  | rust => apply Rules.sublist_preorder
  | typescript => apply Rules.sublist_preorder
  | javascript => apply Rules.sublist_preorder
  | python => apply Rules.sublist_preorder

theorem qualifiedName_traversal (language : Language) (scope : Scope) (root : Node)
    {e : FunctionSite} (h : e ∈ language.traversal scope root) :
    e.decl.qualifiedName = Text.qualify e.scopes e.decl.name language.grammar.separator := by
  cases language with
  | rust => exact Rules.qualifiedName_of_mem _ _ h
  | typescript => exact Rules.qualifiedName_of_mem _ _ h
  | javascript => exact Rules.qualifiedName_of_mem _ _ h
  | python => exact Rules.qualifiedName_of_mem _ _ h

/--
The functions of a file are those of the plain traversal: they are declared by different nodes, they
come in the preorder of these nodes, and each one is called by the names of the scopes around it.
-/
theorem functions_in_preorder (language : Language) (scope : Scope) (root : Node)
    (f : Fallbacks) :
    let found := language.traversal scope root
    ((language.declarations scope root).run f).1.functions = found.map (·.decl) ∧
    (found.map (·.node)).Sublist root.preorder ∧
    found.Pairwise (fun a b => a.node.index < b.node.index) ∧
    ∀ e ∈ found,
      e.decl.qualifiedName = Text.qualify e.scopes e.decl.name language.grammar.separator := by
  intro found
  have hsublist := language.sublist_preorder_traversal scope root
  refine ⟨language.functions_eq_map_traversal scope root f, hsublist, ?_, ?_⟩
  · have hindex := root.pairwise_index_preorder.sublist hsublist
    rwa [List.pairwise_map] at hindex
  · intro e he
    exact language.qualifiedName_traversal scope root he

def functionInNamespace : Tree :=
  .node ⟨"program", true, false, none, 0, 31⟩ [
    .node ⟨"expression_statement", true, false, none, 0, 31⟩ [
      .node ⟨"internal_module", true, false, none, 0, 31⟩ [
        .node ⟨"namespace", false, false, none, 0, 9⟩ [],
        .node ⟨"identifier", true, false, some "name", 10, 11⟩ [],
        .node ⟨"statement_block", true, false, some "body", 12, 31⟩ [
          .node ⟨"function_declaration", true, false, none, 14, 29⟩ [
            .node ⟨"function", false, false, none, 14, 22⟩ [],
            .node ⟨"identifier", true, false, some "name", 23, 24⟩ [],
            .node ⟨"formal_parameters", true, false, some "parameters", 24, 26⟩ [],
            .node ⟨"statement_block", true, false, some "body", 27, 29⟩ []]]]]]

/--
A namespace of TypeScript is not among the scopes of the functions in it.
-/
theorem functionInNamespace_qualifiedName :
    let root := .root (.ofString "namespace N \x7b function q() \x7b\x7d \x7d") functionInNamespace
    let names := ((declarations typescript ⟨"a.ts", {}⟩ root).run 0).1.functions.map
      (·.qualifiedName)
    names = ["q"] ∧ names ≠ [Text.qualify ["N"] "q" typescript.grammar.separator] := by
  decide +kernel

end Polyglot.Language
