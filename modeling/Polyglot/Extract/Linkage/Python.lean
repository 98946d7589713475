import Polyglot.Extract.Declarations.Python
import Polyglot.Record.Linkage

/-!
This module contains the imports and exports of Python. A module exports what `__all__` lists, or
else its public functions and classes.
-/

namespace Polyglot.Python

/--
The part of a dotted name before the first dot.
-/
def firstComponent (dotted : String) : String :=
  String.ofList (dotted.toList.takeWhile (· != '.'))

/--
The module and the name of one module in `import a.b as c`.
-/
def importedModule? (name : Node) : Option Binding :=
  if name.kind = "aliased_import" then
    (name.fieldText? "name").map fun source =>
      { imported := source, bound := (name.fieldText? "alias").getD (firstComponent source) }
  else some { imported := name.text, bound := firstComponent name.text }

/--
One name in `from m import a as b`.
-/
def importedName? (name : Node) : Option Binding :=
  if name.kind = "aliased_import" then
    return { imported := ← name.fieldText? "name", bound := ← name.fieldText? "alias" }
  else some (.same name.text)

def importedNames (n : Node) : List Binding :=
  if n.hasChildKind "wildcard_import" then [.wildcard "*"]
  else (n.fields "name").filterMap importedName?

def importsOf (isTypeOnly : Bool) (n : Node) : List ImportDecl :=
  match n.kind with
  | "import_statement" =>
    ((n.fields "name").filterMap importedModule?).map fun binding =>
      { source := binding.imported, bindings := [binding], line := n.line, isTypeOnly }
  | "import_from_statement" =>
    (n.fieldText? "module_name").toList.map fun source =>
      { source, bindings := importedNames n, line := n.line, isTypeOnly }
  | "future_import_statement" =>
    [{ source := "__future__", bindings := importedNames n, line := n.line, isTypeOnly := false }]
  | _ => []

/--
Whether a statement runs for a type checker only.
-/
def isTypeCheckingBlock (n : Node) : Bool :=
  n.kind == "if_statement"
    && (n.fieldText? "condition").any fun condition =>
      ["TYPE_CHECKING", "typing.TYPE_CHECKING"].contains (Text.trim condition)

def statementImports (n : Node) : List ImportDecl :=
  if isTypeCheckingBlock n then
    (n.field? "consequence").elim [] (·.namedChildren.flatMap (importsOf true))
  else importsOf false n

def imports (root : Node) : List ImportDecl := root.namedChildren.flatMap statementImports

/--
An assignment to `__all__` in a statement: whether it replaces the list, and the names it has.
-/
def listing? (n : Node) : Option (Bool × List String) := do
  guard (n.kind = "expression_statement")
  let assignment ← n.firstNamedChild?
  guard (["assignment", "augmented_assignment"].contains assignment.kind)
  guard (assignment.fieldText? "left" = some "__all__")
  let right ← assignment.field? "right"
  let names := (right.namedChildren.filter (·.kind == "string")).map (Text.unquote ·.text)
  return (assignment.kind == "assignment", names)

/--
The list so far with one more statement. Its line is that of the first assignment.
-/
def addListing (found : Option (UInt32 × List String)) (n : Node) : Option (UInt32 × List String) :=
  match listing? n with
  | none => found
  | some (replaces, names) =>
    let (line, before) := found.getD (n.line, [])
    some (line, if replaces then names else before ++ names)

/--
What the assignments to `__all__` leave in it, if there are any.
-/
def listed? (root : Node) : Option (UInt32 × List String) :=
  root.namedChildren.foldl addListing none

/--
The export of a public definition.
-/
def definitionExport? (n : Node) : Option ExportDecl := do
  let definition := undecorated n
  guard (["function_definition", "class_definition"].contains definition.kind)
  let name ← definition.fieldText? "name"
  guard (isPublicName name)
  return { source := none, bindings := [.same name], line := n.line, isTypeOnly := false }

def exports (root : Node) : List ExportDecl :=
  match listed? root with
  | some (line, names) =>
    [{ source := none, bindings := names.map .same, line, isTypeOnly := false }]
  | none => root.namedChildren.filterMap definitionExport?

end Polyglot.Python
