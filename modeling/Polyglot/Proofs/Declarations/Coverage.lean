import Polyglot.Extract.Facts
import Polyglot.Proofs.Declarations.Search.Python
import Polyglot.Proofs.Declarations.Search.Rust
import Polyglot.Proofs.Declarations.Search.TypeScript

/-!
This module contains what the search for declarations covers in each language. If nothing is counted
as skipped or truncated, the declarations without a record are those that the search passes over.
-/

namespace Polyglot.Language

open Extract

/--
The kinds of nodes that declare a function or a class under a name of their own.
-/
def declares : Language → (kind : String) → Bool
  | rust => (["function_item"].contains ·)
  | typescript | javascript => (["function_declaration", "class_declaration"].contains ·)
  | python => (["function_definition", "class_definition"].contains ·)

def search : Language → Search
  | rust => Rust.search
  | typescript | javascript => TypeScript.search
  | python => Python.search

/--
Where the search for declarations begins.
-/
def starts : Language → (root : Node) → List Node
  | rust, root => root.namedChildren
  | _, root => [root]

theorem lawful_search (language : Language) : language.search.Lawful := by
  cases language with
  | rust => exact Rust.lawful_search
  | typescript => exact TypeScript.lawful_search
  | javascript => exact TypeScript.lawful_search
  | python => exact Python.lawful_search

theorem pairwise_starts (language : Language) (root : Node) :
    (language.starts root).Pairwise Node.Before := by
  cases language with
  | rust => exact root.pairwise_index_namedChildren
  | typescript => exact List.pairwise_singleton _ _
  | javascript => exact List.pairwise_singleton _ _
  | python => exact List.pairwise_singleton _ _

/--
The functions and classes below `root` with the nodes that declare them.
-/
def declared (language : Language) (scope : Scope) (root : Node) : List Declared :=
  match language with
  | rust =>
    let items := recorded (traceAll Rust.plan scope root.namedChildren)
    items.filterMap
      (Rust.Item.declared? (items.filterMap Rust.Item.path?) (items.filterMap Rust.Item.impl?))
  | typescript | javascript => recorded (traceAll TypeScript.plan scope [root])
  | python => recorded (traceAll Python.plan scope [root])

theorem assemble_declared (language : Language) (scope : Scope) (root : Node) (f : Fallbacks) :
    ((language.declarations scope root).run f).1 =
      Declared.assemble (language.declared scope root) := by
  cases language with
  | rust =>
    have hrun := run_declarations Rust.plan scope root.namedChildren f
    apply Eq.trans _ (Rust.assemble_eq _)
    exact congrArg (fun r => Rust.assemble r.1) hrun
  | typescript =>
    have hrun := run_declarations TypeScript.plan scope [root] f
    exact congrArg (fun r => Declared.assemble r.1) hrun
  | javascript =>
    have hrun := run_declarations TypeScript.plan scope [root] f
    exact congrArg (fun r => Declared.assemble r.1) hrun
  | python =>
    have hrun := run_declarations Python.plan scope [root] f
    exact congrArg (fun r => Declared.assemble r.1) hrun

variable {language : Language} {scope : Scope} {root : Node} {f : Fallbacks}

theorem clean_of_run {ρ : Type} {planner : Planner ρ} {nodes : List Node}
    {assemble : List ρ → Declarations} {after : Fallbacks}
    (hafter : ((assemble <$> Extract.declarations planner scope nodes).run f).2 = after)
    (hskipped : after.skippedDeclarations = f.skippedDeclarations)
    (htruncated : after.truncatedSubtrees = f.truncatedSubtrees) :
    Clean (traceAll planner scope nodes) := by
  have hrun : f + counted (traceAll planner scope nodes) = after := by
    rw [← hafter]
    exact congrArg (·.2) (run_declarations planner scope nodes f).symm
  rw [← hrun] at hskipped htruncated
  apply clean_of_counted
  · exact Nat.add_eq_left.1 hskipped
  · exact Nat.add_eq_left.1 htruncated

theorem exists_describes_iff_finds {d : Node}
    (hd : ∃ start ∈ language.starts root, d ∈ start.preorder) (hkind : language.declares d.kind)
    (hskipped : ((language.declarations scope root).run f).2.skippedDeclarations =
      f.skippedDeclarations)
    (htruncated : ((language.declarations scope root).run f).2.truncatedSubtrees =
      f.truncatedSubtrees) :
    (∃ e ∈ language.declared scope root, e.Describes scope.file d) ↔
      language.search.Finds (language.starts root) d := by
  have hsingle (h : ∃ start ∈ [root], d ∈ start.preorder) : d ∈ root.preorder := by
    obtain ⟨start, hstart, hd⟩ := h
    rwa [List.mem_singleton.1 hstart] at hd
  cases language with
  | rust => exact Rust.exists_record_iff (clean_of_run rfl hskipped htruncated) _ _ d
  | typescript =>
    exact TypeScript.exists_record_iff (clean_of_run rfl hskipped htruncated) (hsingle hd) hkind
  | javascript =>
    exact TypeScript.exists_record_iff (clean_of_run rfl hskipped htruncated) (hsingle hd) hkind
  | python => exact Python.exists_record_iff (clean_of_run rfl hskipped htruncated) d

/--
If nothing is counted as skipped or truncated, a declaration has a record unless the search passes
over a part of the tree that holds it.
-/
theorem recorded_unless_passed_over {d : Node}
    (hd : ∃ start ∈ language.starts root, d ∈ start.preorder) (hkind : language.declares d.kind)
    (hskipped : ((language.declarations scope root).run f).2.skippedDeclarations =
      f.skippedDeclarations)
    (htruncated : ((language.declarations scope root).run f).2.truncatedSubtrees =
      f.truncatedSubtrees) :
    ((language.declarations scope root).run f).1 =
        Declared.assemble (language.declared scope root) ∧
      ((∃ e ∈ language.declared scope root, e.Describes scope.file d) ↔
        ¬language.search.PassesOver (language.starts root) d) := by
  refine ⟨language.assemble_declared scope root f, ?_⟩
  rw [← language.lawful_search.finds_iff (language.pairwise_starts root) hd]
  exact exists_describes_iff_finds hd hkind hskipped htruncated

def staticBlockAndMethod : Tree :=
  .node ⟨"program", true, false, none, 0, 62⟩ [
    .node ⟨"class_declaration", true, false, none, 0, 62⟩ [
      .node ⟨"class", false, false, none, 0, 5⟩ [],
      .node ⟨"type_identifier", true, false, some "name", 6, 7⟩ [],
      .node ⟨"class_body", true, false, some "body", 8, 62⟩ [
        .node ⟨"class_static_block", true, false, none, 10, 36⟩ [
          .node ⟨"static", false, false, none, 10, 16⟩ [],
          .node ⟨"statement_block", true, false, some "body", 17, 36⟩ [
            .node ⟨"function_declaration", true, false, none, 19, 34⟩ [
              .node ⟨"function", false, false, none, 19, 27⟩ [],
              .node ⟨"identifier", true, false, some "name", 28, 29⟩ [],
              .node ⟨"formal_parameters", true, false, some "parameters", 29, 31⟩ [],
              .node ⟨"statement_block", true, false, some "body", 32, 34⟩ []]]],
        .node ⟨"method_definition", true, false, none, 37, 60⟩ [
          .node ⟨"property_identifier", true, false, some "name", 37, 38⟩ [],
          .node ⟨"formal_parameters", true, false, some "parameters", 38, 40⟩ [],
          .node ⟨"statement_block", true, false, some "body", 41, 60⟩ [
            .node ⟨"function_declaration", true, false, none, 43, 58⟩ [
              .node ⟨"function", false, false, none, 43, 51⟩ [],
              .node ⟨"identifier", true, false, some "name", 52, 53⟩ [],
              .node ⟨"formal_parameters", true, false, some "parameters", 53, 55⟩ [],
              .node ⟨"statement_block", true, false, some "body", 56, 58⟩ []]]]]]]

def staticBlockAndMethodRoot : Node :=
  .root (.ofString ("class A \x7b static \x7b function f() \x7b\x7d \x7d " ++
    "m() \x7b function g() \x7b\x7d \x7d \x7d")) staticBlockAndMethod

def staticBlockAndMethodAt (index : Nat) : Node :=
  (staticBlockAndMethodRoot.descendant? index).getD staticBlockAndMethodRoot

theorem reaches_in_method :
    (search typescript).Reaches staticBlockAndMethodRoot (staticBlockAndMethodAt 17) := by
  have hclass : staticBlockAndMethodAt 1 ∈ TypeScript.search.opens staticBlockAndMethodRoot :=
    List.mem_of_getElem? (i := 0) (by with_unfolding_all rfl)
  have hbody : staticBlockAndMethodAt 16 ∈ TypeScript.search.opens (staticBlockAndMethodAt 1) :=
    List.mem_of_getElem? (i := 0) (by with_unfolding_all rfl)
  have hfunction :
      staticBlockAndMethodAt 17 ∈ TypeScript.search.opens (staticBlockAndMethodAt 16) :=
    List.mem_of_getElem? (i := 0) (by with_unfolding_all rfl)
  exact .head hclass (.head hbody (.single hfunction))

/--
A function in a method has a record.
-/
theorem function_in_method_recorded :
    ((declarations typescript ⟨"a.ts", {}⟩ staticBlockAndMethodRoot).run 0).2 = 0 ∧
      ∃ e ∈ declared typescript ⟨"a.ts", {}⟩ staticBlockAndMethodRoot,
        e.Describes "a.ts" (staticBlockAndMethodAt 17) := by
  have hlawful := typescript.lawful_search
  have hmem : ∃ start ∈ typescript.starts staticBlockAndMethodRoot,
      staticBlockAndMethodAt 17 ∈ start.preorder :=
    ⟨_, List.mem_cons_self, hlawful.mem_preorder_of_reaches reaches_in_method⟩
  have hfinds : (search typescript).Finds (typescript.starts staticBlockAndMethodRoot)
      (staticBlockAndMethodAt 17) := by
    refine ⟨_, ⟨_, List.mem_cons_self, reaches_in_method⟩, ?_⟩
    exact List.mem_of_getElem? (i := 0) (by with_unfolding_all rfl)
  have hpasses := (hlawful.finds_iff (typescript.pairwise_starts _) hmem).1 hfinds
  refine ⟨by decide +kernel, ?_⟩
  exact (recorded_unless_passed_over (f := 0) hmem (by decide +kernel) (by decide +kernel)
    (by decide +kernel)).2.2 hpasses

/--
A function in a static block has no record, though nothing is counted.
-/
theorem function_in_static_block_lost :
    let run := (declarations typescript ⟨"a.ts", {}⟩ staticBlockAndMethodRoot).run 0
    let lost := staticBlockAndMethodAt 8
    run.2 = 0 ∧ run.1.functions.map (·.name) = ["m", "g"] ∧ run.1.classes.map (·.name) = ["A"] ∧
      typescript.declares lost.kind ∧ lost.fieldText? "name" = some "f" := by
  decide +kernel

end Polyglot.Language
