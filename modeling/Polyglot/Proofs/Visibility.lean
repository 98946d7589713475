import Polyglot.Proofs.Declarations.Coverage
import Polyglot.Proofs.Visibility.Python
import Polyglot.Proofs.Visibility.Rust
import Polyglot.Proofs.Visibility.TypeScript

/-!
This module contains the visibility of what is declared at the top level of a file. It is decided
twice, for the records of the declarations on the walk through the tree and for the exports from the
statements of the file, and the two agree.
-/

namespace Polyglot.Language

open Extract

def topLevel : Language → (statement : Node) → List TopLevel
  | rust => Rust.topLevel
  | typescript | javascript => TypeScript.topLevel
  | python => Python.topLevel

/--
The exports of one statement of a file.
-/
def exportsOf : Language → (statement : Node) → List ExportDecl
  | rust, n => Rust.exportsOf n
  | typescript, n | javascript, n => (TypeScript.exportOf? n).toList
  | python, n => (Python.definitionExport? n).toList

/--
Whether an export of the statement is one of the given name.
-/
def Lists (language : Language) (statement : Node) (name : String) : Prop :=
  ∃ e ∈ language.exportsOf statement,
    match language with
    | rust | python => e.source = none ∧ .same name ∈ e.bindings
    | typescript | javascript => ∃ b ∈ e.bindings, b.imported = name

def rootKinds : Language → List String
  | rust => ["source_file", "ERROR"]
  | typescript | javascript => ["program", "ERROR"]
  | python => ["module", "ERROR"]

/--
Whether a node is the root of the tree of a file.
-/
def IsFile (language : Language) (root : Node) : Prop :=
  root.parent? = none ∧ language.rootKinds.contains root.kind

variable {language : Language} {scope : Scope} {root : Node}

theorem exports_eq_flatMap
    (hlisting : language = python → ∀ n ∈ root.namedChildren, Python.listing? n = none) :
    language.exports root = root.namedChildren.flatMap language.exportsOf := by
  cases language with
  | rust => rfl
  | typescript => exact List.filterMap_eq_flatMap_toList ..
  | javascript => exact List.filterMap_eq_flatMap_toList ..
  | python =>
    rw [exports, Python.exports_eq (hlisting rfl)]
    exact List.filterMap_eq_flatMap_toList ..

section TopLevel

variable {statement : Node} {d : TopLevel} (hd : d ∈ language.topLevel statement)

include hd

theorem lists_iff_isPublic : language.Lists statement d.name ↔ d.isPublic := by
  have htoList {o : Option ExportDecl} {P : ExportDecl → Prop} :
      (∃ e ∈ o.toList, P e) ↔ ∃ e ∈ o, P e := by simp
  cases language with
  | rust => exact Rust.listed_iff_isPublic hd
  | typescript => exact htoList.trans (TypeScript.listed_iff_isPublic hd)
  | javascript => exact htoList.trans (TypeScript.listed_iff_isPublic hd)
  | python => exact htoList.trans (Python.listed_iff_isPublic hd)

variable (hfile : language.IsFile root) (hdepth : 3 ≤ scope.limits.maxTreeDepth)
  (hstatement : statement ∈ root.namedChildren)

include hfile hdepth hstatement

theorem exists_record : ∃ e ∈ language.declared scope root, e.IsFor d ∧ e.name = d.name := by
  cases language with
  | rust => exact Rust.exists_record _ _ hstatement hd
  | typescript => exact TypeScript.exists_record hfile.2 hdepth hstatement hd
  | javascript => exact TypeScript.exists_record hfile.2 hdepth hstatement hd
  | python => exact Python.exists_record hstatement hd hfile.2 hdepth

theorem isExported_eq {e : Declared} (he : e ∈ language.declared scope root) (hfor : e.IsFor d) :
    e.isExported = d.isPublic := by
  cases language with
  | rust => exact Rust.isExported_eq _ _ hstatement hd hfile.1 he hfor
  | typescript => exact TypeScript.isExported_eq hfile.2 hdepth hstatement hd he hfor
  | javascript => exact TypeScript.isExported_eq hfile.2 hdepth hstatement hd he hfor
  | python => exact Python.isExported_eq hd he hfor

end TopLevel

/--
What is declared at the top level of a file has a record, and its records are marked as exported
exactly if the statement that declares it exports it, which is if it is public.
-/
theorem exports_agree_with_records (language : Language) (scope : Scope) (root : Node)
    (f : Fallbacks) (hfile : language.IsFile root) (hdepth : 3 ≤ scope.limits.maxTreeDepth)
    (hlisting : language = python → ∀ n ∈ root.namedChildren, Python.listing? n = none) :
    let records := language.declared scope root
    ((language.declarations scope root).run f).1 = Declared.assemble records ∧
    language.exports root = root.namedChildren.flatMap language.exportsOf ∧
    ∀ statement ∈ root.namedChildren, ∀ d ∈ language.topLevel statement,
      (∃ e ∈ records, e.IsFor d ∧ e.name = d.name) ∧
      (∀ e ∈ records, e.IsFor d → e.isExported = d.isPublic) ∧
      (language.Lists statement d.name ↔ d.isPublic) := by
  intro records
  refine ⟨language.assemble_declared scope root f, exports_eq_flatMap hlisting, ?_⟩
  intro statement hstatement d hd
  refine ⟨exists_record hd hfile hdepth hstatement, ?_, lists_iff_isPublic hd⟩
  intro e he hfor
  exact isExported_eq hd hfile hdepth hstatement he hfor

def exportedVariables : Tree :=
  .node ⟨"program", true, false, none, 0, 53⟩ [
    .node ⟨"export_statement", true, false, none, 0, 37⟩ [
      .node ⟨"export", false, false, none, 0, 6⟩ [],
      .node ⟨"lexical_declaration", true, false, some "declaration", 7, 37⟩ [
        .node ⟨"let", false, false, some "kind", 7, 10⟩ [],
        .node ⟨"variable_declarator", true, false, none, 11, 23⟩ [
          .node ⟨"identifier", true, false, some "name", 11, 12⟩ [],
          .node ⟨"class", true, false, some "value", 15, 23⟩ [
            .node ⟨"class", false, false, none, 15, 20⟩ [],
            .node ⟨"class_body", true, false, some "body", 21, 23⟩ []]],
        .node ⟨"variable_declarator", true, false, none, 25, 36⟩ [
          .node ⟨"identifier", true, false, some "name", 25, 26⟩ [],
          .node ⟨"arrow_function", true, false, some "value", 29, 36⟩ [
            .node ⟨"formal_parameters", true, false, some "parameters", 29, 31⟩ [],
            .node ⟨"number", true, false, some "body", 35, 36⟩ []]]]],
    .node ⟨"function_declaration", true, false, none, 38, 53⟩ [
      .node ⟨"function", false, false, none, 38, 46⟩ [],
      .node ⟨"identifier", true, false, some "name", 47, 48⟩ [],
      .node ⟨"formal_parameters", true, false, some "parameters", 48, 50⟩ [],
      .node ⟨"statement_block", true, false, some "body", 51, 53⟩ []]]

def exportedVariablesRoot : Node :=
  .root (.ofString "export let g = class \x7b\x7d, f = () => 1;\nfunction h() \x7b\x7d")
    exportedVariables

def exportedVariablesAt (index : Nat) : Node :=
  (exportedVariablesRoot.descendant? index).getD exportedVariablesRoot

theorem exportedVariables_agree :
    let scope : Scope := ⟨"a.ts", { maxTreeDepth := 3 }⟩
    let records := typescript.declared scope exportedVariablesRoot
    let g : TopLevel := ⟨exportedVariablesAt 7, true, "g", true⟩
    let h : TopLevel := ⟨exportedVariablesAt 15, false, "h", false⟩
    typescript.IsFile exportedVariablesRoot ∧
    ((declarations typescript scope exportedVariablesRoot).run 0).1 = Declared.assemble records ∧
    (∃ e ∈ records, e.IsFor g ∧ e.name = "g") ∧ (∀ e ∈ records, e.IsFor g → e.isExported = true) ∧
    typescript.Lists (exportedVariablesAt 1) "g" ∧
    (∃ e ∈ records, e.IsFor h ∧ e.name = "h") ∧ (∀ e ∈ records, e.IsFor h → e.isExported = false) ∧
    ¬typescript.Lists (exportedVariablesAt 15) "h" := by
  intro scope records g h
  have hfile : typescript.IsFile exportedVariablesRoot := ⟨rfl, by decide +kernel⟩
  obtain ⟨hassemble, _, hagree⟩ := exports_agree_with_records typescript scope exportedVariablesRoot
    0 hfile (Nat.le_refl 3) (by intro hpython; cases hpython)
  have hg : g ∈ typescript.topLevel (exportedVariablesAt 1) :=
    List.mem_of_getElem? (i := 0) (by with_unfolding_all rfl)
  have hh : h ∈ typescript.topLevel (exportedVariablesAt 15) :=
    List.mem_of_getElem? (i := 0) (by with_unfolding_all rfl)
  obtain ⟨hrecord, hflag, hlists⟩ := hagree (exportedVariablesAt 1)
    (List.mem_of_getElem? (i := 0) (by with_unfolding_all rfl)) g hg
  obtain ⟨hrecord', hflag', hlists'⟩ := hagree (exportedVariablesAt 15)
    (List.mem_of_getElem? (i := 1) (by with_unfolding_all rfl)) h hh
  refine ⟨hfile, hassemble, hrecord, hflag, hlists.2 rfl, hrecord', hflag', ?_⟩
  intro hlisted
  exact Bool.false_ne_true (hlists'.1 hlisted)

end Polyglot.Language
