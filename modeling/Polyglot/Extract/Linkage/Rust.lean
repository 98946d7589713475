import Polyglot.Record.Linkage
import Polyglot.Extract.Declarations.Rust

/-!
This module contains the imports and exports of Rust, and the flattening of use trees into paths.
-/

namespace Polyglot.Rust

/--
The path and the last name that a leaf of a use tree stands for. Inside a list, `self` stands for
the path of the list.
-/
def usePath (outer path : String) : String × String :=
  let path := Text.strip path
  let full := if path = "self" ∧ outer ≠ "" then outer else joinPath outer path
  (full, lastSegment full)

/--
What a node of a use tree inside the path `outer` gives: its leaves, each as the path of its source
and a binding, and the nodes that are still to be flattened, each with the path around it.
-/
def useStep (n : Node) (outer : String) : List (String × Binding) × List (Node × String) :=
  match n.kind with
  | "use_as_clause" =>
    match n.fieldText? "path" with
    | none => ([], [])
    | some path =>
      let (source, imported) := usePath outer path
      ([(source, { imported, bound := (n.fieldText? "alias").getD imported })], [])
  | "use_wildcard" =>
    let path := (n.namedChildrenExcept commentKinds).head?.elim "" (Text.strip ·.text)
    ([(joinPath outer path, .wildcard "*")], [])
  | "scoped_use_list" =>
    let path := (n.fieldText? "path").elim "" Text.strip
    ([], (n.field? "list").toList.map (·, joinPath outer path))
  | "use_list" => ([], n.namedChildren.map (·, outer))
  | "identifier" | "scoped_identifier" | "self" | "crate" | "super" | "metavariable" =>
    let (source, imported) := usePath outer n.text
    ([(source, .same imported)], [])
  | _ => ([], [])

theorem pendingSize_useStep_lt (n : Node) (outer : String) :
    Node.pendingSize (useStep n outer).2 < n.size := by
  have hnone := n.size_pos
  unfold useStep
  split
  case h_3 =>
    cases hlist : n.field? "list" with
    | none => exact hnone
    | some list => exact Node.size_lt_of_field hlist
  case h_4 => exact n.pendingSize_namedChildren_lt outer
  case h_1 => split <;> exact hnone
  all_goals exact hnone

/--
Flatten the pending nodes behind the leaves that are there already. The nodes inside a list come
next, before the other pending ones.
-/
def flattenUses (leaves : List (String × Binding)) :
    List (Node × String) → List (String × Binding)
  | [] => leaves
  | (n, outer) :: pending =>
    flattenUses (leaves ++ (useStep n outer).1) ((useStep n outer).2 ++ pending)
termination_by pending => Node.pendingSize pending
decreasing_by
  have := pendingSize_useStep_lt n outer
  rw [Node.pendingSize_append, Node.pendingSize_cons]
  omega

/--
The leaves of a use tree inside the path `outer`.
-/
def useLeaves (outer : String) (n : Node) : List (String × Binding) := flattenUses [] [(n, outer)]

/--
Add a binding under its source; a new source comes last.
-/
def addBinding (groups : List (String × List Binding)) (leaf : String × Binding) :
    List (String × List Binding) :=
  match groups with
  | [] => [(leaf.1, [leaf.2])]
  | (source, bindings) :: rest =>
    if source = leaf.1 then (source, bindings ++ [leaf.2]) :: rest
    else (source, bindings) :: addBinding rest leaf

/--
The bindings of a use declaration, grouped by source in the order in which sources first occur.
-/
def useGroups (n : Node) : List (String × List Binding) :=
  ((n.field? "argument").elim [] (useLeaves "")).foldl addBinding []

def importsOf (n : Node) : List ImportDecl :=
  match n.kind with
  | "use_declaration" =>
    (useGroups n).map fun (source, bindings) =>
      { source, bindings, line := n.line, isTypeOnly := false }
  | "extern_crate_declaration" =>
    match n.fieldText? "name" with
    | none => []
    | some name =>
      let bound := (n.fieldText? "alias").getD name
      [{ source := name, bindings := [{ imported := name, bound }], line := n.line,
         isTypeOnly := false }]
  | _ => []

def imports (root : Node) : List ImportDecl := root.namedChildren.flatMap importsOf

/--
The items that are exported if they are public.
-/
def exportableKinds : List String :=
  ["function_item", "function_signature_item", "struct_item", "enum_item", "union_item",
    "trait_item", "type_item", "const_item", "static_item", "mod_item"]

/--
The export of the item that `n` names.
-/
def exportByName (n : Node) : List ExportDecl :=
  match n.fieldText? "name" with
  | none => []
  | some name => [{ source := none, bindings := [.same name], line := n.line, isTypeOnly := false }]

def exportsOf (n : Node) : List ExportDecl :=
  if n.kind = "use_declaration" ∧ isPub n then
    (useGroups n).map fun (source, bindings) =>
      { source := some source, bindings, line := n.line, isTypeOnly := false }
  else if exportableKinds.contains n.kind ∧ isPub n then exportByName n
  else if n.kind = "macro_definition"
      ∧ (grammar.precedingDecorators n).any (Text.strip · == "#[macro_export]") then
    exportByName n
  else []

def exports (root : Node) : List ExportDecl := root.namedChildren.flatMap exportsOf

end Polyglot.Rust
