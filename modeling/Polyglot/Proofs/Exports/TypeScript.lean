import Polyglot.Proofs.Reads
import Polyglot.Proofs.Visibility.TypeScript

/-!
This module contains the names that a declaration binds, and which of them are exported with it. A
declarator is exported under the text of its pattern, and the declaration in an ambient one is not
looked at, so the exported names are the bound ones only for declarations of plain names.
-/

namespace Polyglot.TypeScript

open Node

/--
The names that a pattern binds, in source order.
-/
def patternNames (n : Node) : List String :=
  match n.kind with
  | "identifier" | "shorthand_property_identifier_pattern" => [n.text]
  | "object_pattern" | "array_pattern" | "rest_pattern" =>
    n.namedChildren.attach.flatMap fun ⟨c, _⟩ => patternNames c
  | "pair_pattern" =>
    match _h : n.field? "value" with
    | some value => patternNames value
    | none => []
  | "assignment_pattern" | "object_assignment_pattern" =>
    match _h : n.field? "left" with
    | some left => patternNames left
    | none => []
  | _ => []
termination_by n.size
decreasing_by
  · exact size_lt_of_mem_namedChildren ‹_›
  · exact size_lt_of_field ‹_›
  · exact size_lt_of_field ‹_›

/--
The patterns of a variable declaration, one for each declarator.
-/
def declaratorPatterns (n : Node) : List Node :=
  if isVariableDeclaration n then
    (n.namedChildren.filter (·.kind == "variable_declarator")).filterMap (·.field? "name")
  else []

/--
The declarations of one thing with a name.
-/
def namedKinds : List String :=
  ["function_declaration", "generator_function_declaration", "function_signature",
    "class_declaration", "abstract_class_declaration", "interface_declaration", "enum_declaration",
    "type_alias_declaration"]

/--
The names that a declaration binds which is not ambient.
-/
def directNames (n : Node) : List String :=
  if namedKinds.contains n.kind then (n.fieldText? "name").toList
  else (declaratorPatterns n).flatMap patternNames

def boundNames (n : Node) : List String :=
  if n.kind = "ambient_declaration" then n.namedChildren.flatMap directNames else directNames n

def isNameDeclaration (n : Node) : Bool := namedKinds.contains n.kind || isVariableDeclaration n

def patternKinds : List String := ["object_pattern", "array_pattern"]

def nameKinds : List String := ["identifier", "shorthand_property_identifier_pattern"]

def opensBracket (text : String) : Bool :=
  Text.startsWith text "\x7b" || Text.startsWith text "["

/--
The declaration of an export as a parser gives it.
-/
structure Exportable (d : Node) : Prop where
  declares : isNameDeclaration d ∨ d.kind = "ambient_declaration" ∧ d.field? "name" = none ∧
    ∃ c ∈ d.namedChildren, isNameDeclaration c
  patterns : ∀ p ∈ declaratorPatterns d, p.kind = "identifier" ∨ p.kind ∈ patternKinds
  brackets : ∀ m ∈ d.preorder, m.kind ∈ patternKinds → opensBracket m.text
  names : ∀ m ∈ d.preorder, m.kind ∈ nameKinds → ¬ opensBracket m.text

theorem patternNames_identifier {n : Node} (h : n.kind = "identifier") :
    patternNames n = [n.text] := by
  rw [patternNames]
  simp only [h]

theorem mem_patternNames {n : Node} {name : String} (h : name ∈ patternNames n) :
    ∃ m ∈ n.preorder, m.kind ∈ nameKinds ∧ m.text = name := by
  fun_induction patternNames n with
  | case1 n hkind =>
    refine ⟨n, mem_preorder_self n, ?_, (List.mem_singleton.1 h).symm⟩
    simp [nameKinds, hkind]
  | case2 n hkind =>
    refine ⟨n, mem_preorder_self n, ?_, (List.mem_singleton.1 h).symm⟩
    simp [nameKinds, hkind]
  | case3 n hkind ih | case4 n hkind ih | case5 n hkind ih =>
    obtain ⟨⟨c, hc⟩, -, hname⟩ := List.mem_flatMap.1 h
    obtain ⟨m, hm, hmatch⟩ := ih c hc hname
    exact ⟨m, mem_preorder_of_mem_children (mem_children_of_mem_namedChildren hc) hm, hmatch⟩
  | case6 n hkind c hc ih | case8 n hkind c hc ih | case10 n hkind c hc ih =>
    obtain ⟨m, hm, hmatch⟩ := ih h
    exact ⟨m, mem_preorder_trans hm (mem_preorder_of_field hc), hmatch⟩
  | _ => cases h

/--
The tree of a pattern with a property in an array, a default and a rest.
-/
def nestedPattern : Node :=
  .root (.ofString "\x7b d, e: [f = 1], ...g \x7d") <|
    .node ⟨"object_pattern", true, false, none, 0, 23⟩ [
      .node ⟨"shorthand_property_identifier_pattern", true, false, none, 2, 3⟩ [],
      .node ⟨"pair_pattern", true, false, none, 5, 15⟩ [
        .node ⟨"property_identifier", true, false, some "key", 5, 6⟩ [],
        .node ⟨"array_pattern", true, false, some "value", 8, 15⟩ [
          .node ⟨"assignment_pattern", true, false, none, 9, 14⟩ [
            .node ⟨"identifier", true, false, some "left", 9, 10⟩ [],
            .node ⟨"number", true, false, some "right", 13, 14⟩ []]]],
      .node ⟨"rest_pattern", true, false, none, 17, 21⟩ [
        .node ⟨"identifier", true, false, none, 20, 21⟩ []]]

example : patternNames nestedPattern = ["d", "f", "g"] := by decide +kernel

theorem declaredNames_of_named {n : Node} (h : namedKinds.contains n.kind) :
    declaredNames n = directNames n := by
  rw [directNames, if_pos h]
  unfold declaredNames
  split
  · next hkind =>
    rw [hkind] at h
    cases h
  · next hkind =>
    rw [hkind] at h
    cases h
  · rfl

theorem directNames_of_variables {n : Node} (h : isVariableDeclaration n) :
    directNames n = (declaratorPatterns n).flatMap patternNames := by
  rw [directNames, if_neg]
  unfold isVariableDeclaration at h
  grind [namedKinds]

theorem declaredNames_of_variables {n : Node} (h : isVariableDeclaration n) :
    declaredNames n = (declaratorPatterns n).map Node.text := by
  rw [declaratorPatterns, if_pos h, List.map_filterMap]
  unfold declaredNames
  split
  · rfl
  · rfl
  · next hlexical hvariable =>
    unfold isVariableDeclaration at h
    grind

theorem mem_preorder_of_mem_declaratorPatterns {n p : Node} (h : p ∈ declaratorPatterns n) :
    p ∈ n.preorder := by
  unfold declaratorPatterns at h
  split at h
  · obtain ⟨c, hc, hp⟩ := List.mem_filterMap.1 h
    have hc := mem_children_of_mem_namedChildren (List.mem_of_mem_filter hc)
    exact mem_preorder_of_mem_children hc (mem_preorder_of_field hp)
  · cases h

theorem flatMap_patternNames_eq {ps : List Node} (h : ∀ p ∈ ps, p.kind = "identifier") :
    ps.flatMap patternNames = ps.map Node.text := by
  rw [List.map_eq_flatMap]
  apply List.flatMap_congr
  intro p hp
  exact patternNames_identifier (h p hp)

namespace Exportable

variable {d : Node} (h : Exportable d)

include h

/--
A pattern has none of its names as its text, since it begins with a bracket.
-/
theorem text_not_mem_flatMap {p : Node} (hp : p ∈ declaratorPatterns d)
    (hkind : p.kind ≠ "identifier") : p.text ∉ (declaratorPatterns d).flatMap patternNames := by
  intro hmem
  obtain ⟨q, hq, hname⟩ := List.mem_flatMap.1 hmem
  obtain ⟨m, hm, hname, htext⟩ := mem_patternNames hname
  have hpattern := (h.patterns p hp).resolve_left hkind
  apply h.names m (mem_preorder_trans hm (mem_preorder_of_mem_declaratorPatterns hq)) hname
  rw [htext]
  exact h.brackets p (mem_preorder_of_mem_declaratorPatterns hp) hpattern

theorem declaredNames_eq_iff_of_variables (hvariable : isVariableDeclaration d) :
    declaredNames d = directNames d ↔ ∀ p ∈ declaratorPatterns d, p.kind = "identifier" := by
  rw [declaredNames_of_variables hvariable, directNames_of_variables hvariable]
  constructor
  · intro heq p hp
    by_contra hkind
    apply h.text_not_mem_flatMap hp hkind
    rw [← heq]
    exact List.mem_map_of_mem hp
  · intro hplain
    exact (flatMap_patternNames_eq hplain).symm

/--
The names that are read off a declaration are those that it binds if and only if it has no patterns
and is not ambient, unless it binds nothing.
-/
theorem declaredNames_eq_iff :
    declaredNames d = boundNames d ↔
      if d.kind = "ambient_declaration" then boundNames d = []
      else ∀ p ∈ declaratorPatterns d, p.kind = "identifier" := by
  by_cases hambient : d.kind = "ambient_declaration"
  · have hname : d.field? "name" = none := by
      rcases h.declares with hdeclares | ⟨-, hname, -⟩
      · rw [isNameDeclaration, isVariableDeclaration, hambient] at hdeclares
        cases hdeclares
      · exact hname
    have hnames : declaredNames d = [] := by
      simp [declaredNames, hambient, fieldText?, hname]
    rw [if_pos hambient, hnames]
    exact eq_comm
  · rw [if_neg hambient, boundNames, if_neg hambient]
    have hdeclares := h.declares.resolve_right fun hother => hambient hother.1
    rcases Bool.or_eq_true_iff.1 hdeclares with hnamed | hvariable
    · have hpatterns : declaratorPatterns d = [] := by
        rw [declaratorPatterns, if_neg]
        unfold isVariableDeclaration
        grind [namedKinds]
      rw [declaredNames_of_named hnamed, hpatterns]
      constructor
      · intro _ p hp
        cases hp
      · intro _
        rfl
    · exact h.declaredNames_eq_iff_of_variables hvariable

end Exportable

/--
An exported declaration exports exactly the names that it binds if and only if it is not ambient and
has no patterns, or is ambient and binds nothing.
-/
theorem export_of_declaration_names_iff {root n d : Node} (hn : n ∈ root.namedChildren)
    (hkind : n.kind = "export_statement") (hdefault : n.hasChildKind "default" = false)
    (hd : n.field? "declaration" = some d) (h : Exportable d) :
    ∃ e ∈ exports root, exportOf? n = some e ∧ e.line = n.line ∧
      (e.bindings = (boundNames d).map .same ↔
        if d.kind = "ambient_declaration" then boundNames d = []
        else ∀ p ∈ declaratorPatterns d, p.kind = "identifier") := by
  have hbindings : exportBindings? n = some ((declaredNames d).map .same) := by
    simp only [exportBindings?, hdefault, hd, Bool.false_eq_true, ↓reduceIte]
  have hexport : exportOf? n = some
      { source := (n.fieldText? "source").map Text.unquote,
        bindings := (declaredNames d).map .same, line := n.line,
        isTypeOnly := isTypeExport n } := by
    simp only [exportOf?, hkind, statementExport?, hbindings, Option.map_some]
  refine ⟨_, List.mem_filterMap.2 ⟨n, hn, hexport⟩, hexport, rfl, ?_⟩
  rw [Binding.map_same_inj]
  exact h.declaredNames_eq_iff

/--
The tree of an exported declaration of two variables.
-/
def twoVariables : Node :=
  .root (.ofString "export let b = 2, c;") <|
    .node ⟨"program", true, false, none, 0, 20⟩ [
      .node ⟨"export_statement", true, false, none, 0, 20⟩ [
        .node ⟨"export", false, false, none, 0, 6⟩ [],
        .node ⟨"lexical_declaration", true, false, some "declaration", 7, 20⟩ [
          .node ⟨"let", false, false, some "kind", 7, 10⟩ [],
          .node ⟨"variable_declarator", true, false, none, 11, 16⟩ [
            .node ⟨"identifier", true, false, some "name", 11, 12⟩ [],
            .node ⟨"number", true, false, some "value", 15, 16⟩ []],
          .node ⟨"variable_declarator", true, false, none, 18, 19⟩ [
            .node ⟨"identifier", true, false, some "name", 18, 19⟩ []]]]]

theorem twoVariables_exported :
    let n := twoVariables.namedChildren.headD twoVariables
    let d := (n.field? "declaration").getD n
    n ∈ twoVariables.namedChildren ∧ n.field? "declaration" = some d ∧ Exportable d ∧
    ∃ e ∈ exports twoVariables, e.line = 1 ∧ e.bindings = [.same "b", .same "c"] := by
  intro n d
  have hn : n ∈ twoVariables.namedChildren := List.mem_cons_self
  have hd : n.field? "declaration" = some d := rfl
  have h : Exportable d :=
    ⟨by decide +kernel, by decide +kernel, by decide +kernel, by decide +kernel⟩
  obtain ⟨e, he, -, hline, hiff⟩ := export_of_declaration_names_iff hn rfl (by decide +kernel) hd h
  have hplain : if d.kind = "ambient_declaration" then boundNames d = []
      else ∀ p ∈ declaratorPatterns d, p.kind = "identifier" := by
    decide +kernel
  have hnames : boundNames d = ["b", "c"] := by decide +kernel
  refine ⟨hn, hd, h, e, he, ?_, ?_⟩
  · rw [hline]
    decide +kernel
  · rw [hiff.2 hplain, hnames]
    rfl

/--
The tree of an exported declaration with a pattern and of an ambient one.
-/
def patternAndAmbient : Node :=
  .root (.ofString "export const \x7b a \x7d = o;\nexport declare const c: D;") <|
    .node ⟨"program", true, false, none, 0, 50⟩ [
      .node ⟨"export_statement", true, false, none, 0, 23⟩ [
        .node ⟨"export", false, false, none, 0, 6⟩ [],
        .node ⟨"lexical_declaration", true, false, some "declaration", 7, 23⟩ [
          .node ⟨"const", false, false, some "kind", 7, 12⟩ [],
          .node ⟨"variable_declarator", true, false, none, 13, 22⟩ [
            .node ⟨"object_pattern", true, false, some "name", 13, 18⟩ [
              .node ⟨"shorthand_property_identifier_pattern", true, false, none, 15, 16⟩ []],
            .node ⟨"identifier", true, false, some "value", 21, 22⟩ []]]],
      .node ⟨"export_statement", true, false, none, 24, 50⟩ [
        .node ⟨"export", false, false, none, 24, 30⟩ [],
        .node ⟨"ambient_declaration", true, false, some "declaration", 31, 50⟩ [
          .node ⟨"lexical_declaration", true, false, none, 39, 50⟩ [
            .node ⟨"const", false, false, some "kind", 39, 44⟩ [],
            .node ⟨"variable_declarator", true, false, none, 45, 49⟩ [
              .node ⟨"identifier", true, false, some "name", 45, 46⟩ [],
              .node ⟨"type_annotation", true, false, some "type", 46, 49⟩ []]]]]]

theorem bound_names_not_exported :
    (patternAndAmbient.namedChildren.filterMap (·.field? "declaration")).map boundNames =
      [["a"], ["c"]] ∧
    (exports patternAndAmbient).map (·.bindings) = [[.same "\x7b a \x7d"], []] := by
  decide +kernel

end Polyglot.TypeScript
