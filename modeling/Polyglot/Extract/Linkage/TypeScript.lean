import Polyglot.Grammar.TypeScript
import Polyglot.Record.Linkage
import Polyglot.Text.Affix

/-!
This module contains the imports and exports of TypeScript and JavaScript, in the module forms and
in those that call `require` and assign to `module.exports`.
-/

namespace Polyglot.TypeScript

/--
The name in an import or export specifier, which may be a string literal.
-/
def specifierName (text : String) : String :=
  if Text.startsWith text "\"" ∨ Text.startsWith text "'" then Text.unquote text else text

/--
The binding of a specifier `name as alias`.
-/
def specifier? (kind : String) (n : Node) : Option Binding :=
  if n.kind = kind then
    (n.fieldText? "name").map fun name =>
      let imported := specifierName name
      { imported, bound := (n.fieldText? "alias").elim imported specifierName }
  else none

/--
The bindings in one part of an import clause.
-/
def clauseBindings (part : Node) : List Binding :=
  match part.kind with
  | "identifier" => [.ofDefault part.text]
  | "namespace_import" => part.firstNamedChild?.toList.map (.wildcard ·.text)
  | "named_imports" => part.namedChildren.filterMap (specifier? "import_specifier")
  | _ => []

/--
The module that a call `require('m')` names.
-/
def requireSource? (n : Node) : Option String :=
  if n.kind = "call_expression" ∧ n.fieldText? "function" = some "require" then
    (((n.field? "arguments").bind Node.firstNamedChild?).filter (·.kind == "string")).map
      (Text.unquote ·.text)
  else none

/--
One name that a pattern takes out of a module.
-/
def patternBinding? (n : Node) : Option Binding :=
  match n.kind with
  | "shorthand_property_identifier_pattern" => some (.same n.text)
  | "pair_pattern" => return { imported := ← n.fieldText? "key", bound := ← n.fieldText? "value" }
  | _ => none

def patternBindings (pattern : Node) : List Binding :=
  match pattern.kind with
  | "identifier" => [.ofDefault pattern.text]
  | "object_pattern" => pattern.namedChildren.filterMap patternBinding?
  | _ => []

/--
The import of a variable that is bound to a required module.
-/
def declaratorImport? (line : UInt32) (n : Node) : Option ImportDecl :=
  if n.kind = "variable_declarator" then do
    let name ← n.field? "name"
    let value ← n.field? "value"
    let source ← requireSource? value
    return { source, bindings := patternBindings name, line, isTypeOnly := false }
  else none

/--
The import of an import statement, also of the form `import m = require('m')`.
-/
def statementImport? (n : Node) : Option ImportDecl :=
  let isTypeOnly := n.hasChildKind "type"
  match n.childOfKind? ["import_require_clause"] with
  | some clause => do
    let bound ← clause.firstNamedChild?
    let source ← clause.fieldText? "source"
    return { source := Text.unquote source, bindings := [.ofDefault bound.text], line := n.line,
             isTypeOnly }
  | none => do
    let source ← n.fieldText? "source"
    let bindings :=
      (n.childOfKind? ["import_clause"]).elim [] (·.namedChildren.flatMap clauseBindings)
    return { source := Text.unquote source, bindings, line := n.line, isTypeOnly }

def importsOf (n : Node) : List ImportDecl :=
  match n.kind with
  | "import_statement" => (statementImport? n).toList
  | "lexical_declaration" | "variable_declaration" =>
    n.namedChildren.filterMap (declaratorImport? n.line)
  | "expression_statement" =>
    (n.firstNamedChild?.bind requireSource?).toList.map fun source =>
      { source, bindings := [], line := n.line, isTypeOnly := false }
  | _ => []

def imports (root : Node) : List ImportDecl := root.namedChildren.flatMap importsOf

/--
The names that a declaration declares.
-/
def declaredNames (n : Node) : List String :=
  match n.kind with
  | "lexical_declaration" | "variable_declaration" =>
    (n.namedChildren.filter (·.kind == "variable_declarator")).filterMap (·.fieldText? "name")
  | _ => (n.fieldText? "name").toList

/--
A binding that others see as the default.
-/
def defaultExport (imported : String) : Binding :=
  { imported, bound := "default", isDefault := true }

/--
The name of what a default export stands for, if it has one.
-/
def defaultTarget? (n : Node) : Option String :=
  ((n.field? "declaration").or (n.field? "value")).bind fun target =>
    if target.kind = "identifier" then some target.text else target.fieldText? "name"

/--
The bindings of an export statement, none if the statement has none of the known forms.
-/
def exportBindings? (n : Node) : Option (List Binding) :=
  if n.hasChildKind "default" then some [defaultExport ((defaultTarget? n).getD "default")]
  else if let some declaration := n.field? "declaration" then
    some ((declaredNames declaration).map .same)
  else if let some clause := n.childOfKind? ["export_clause"] then
    some (clause.namedChildren.filterMap (specifier? "export_specifier"))
  else if let some clause := n.childOfKind? ["namespace_export"] then
    some [.wildcard (clause.firstNamedChild?.elim "*" (specifierName ·.text))]
  else if n.hasChildKind "*" then some [.wildcard "*"]
  else none

/--
Whether an export statement exports types only. A default export of an interface does not count.
-/
def isTypeExport (n : Node) : Bool :=
  n.hasChildKind "type"
    || (!n.hasChildKind "default" && (n.field? "declaration").any
      (["interface_declaration", "type_alias_declaration"].contains ·.kind))

def statementExport? (n : Node) : Option ExportDecl :=
  (exportBindings? n).map fun bindings =>
    { source := (n.fieldText? "source").map Text.unquote, bindings, line := n.line,
      isTypeOnly := isTypeExport n }

/--
The export of one entry of the object that is assigned to `module.exports`.
-/
def entryBinding? (n : Node) : Option Binding :=
  match n.kind with
  | "shorthand_property_identifier" => some (.same n.text)
  | "pair" => return { imported := ← n.fieldText? "value", bound := ← n.fieldText? "key" }
  | _ => none

/--
The bindings of an assignment of `value` to `target`, if that is an export.
-/
def assignedBindings? (target : String) (value : Node) : Option (List Binding) :=
  if target = "module.exports" then
    match value.kind with
    | "object" => some (value.namedChildren.filterMap entryBinding?)
    | "identifier" => some [defaultExport value.text]
    | _ => some [defaultExport "default"]
  else
    ((Text.dropStart? target "exports.").or (Text.dropStart? target "module.exports.")).map
      fun name => [.same name]

def assignmentExport? (n : Node) : Option ExportDecl := do
  let assignment ← n.firstNamedChild?
  guard (assignment.kind = "assignment_expression")
  let target ← assignment.field? "left"
  let value ← assignment.field? "right"
  let bindings ← assignedBindings? target.text value
  return { source := none, bindings, line := n.line, isTypeOnly := false }

def exportOf? (n : Node) : Option ExportDecl :=
  match n.kind with
  | "export_statement" => statementExport? n
  | "expression_statement" => assignmentExport? n
  | _ => none

def exports (root : Node) : List ExportDecl := root.namedChildren.filterMap exportOf?

end Polyglot.TypeScript
