import Polyglot.Extract.Declarations
import Polyglot.Grammar.TypeScript
import Polyglot.Text.Affix
import Polyglot.Text.TypeName

/-!
This module contains the declarations of TypeScript and JavaScript: functions, also those bound to
variables and to fields, classes, interfaces and enums.
-/

namespace Polyglot.TypeScript

open Extract (Step Plan Declared)

/--
The expressions that are functions.
-/
def functionValues : List String :=
  ["arrow_function", "function_expression", "function", "generator_function"]

def isFunctionValue (n : Node) : Bool := functionValues.contains n.kind

def isExportWrapped (n : Node) : Bool := n.parentKind? == some "export_statement"

/--
The decorators before a declaration, on a wrapping export statement and inside, in this order.
-/
def decorators (n : Node) : List String :=
  let wrapper := n.parent?.filter (·.kind == "export_statement")
  grammar.precedingDecorators n ++ wrapper.elim [] grammar.childDecorators
    ++ grammar.childDecorators n

/--
Drop every leading `...`.
-/
def dropDots : List Char → List Char
  | '.' :: '.' :: '.' :: rest => dropDots rest
  | cs => cs

def restParameter (pattern : Node) : Parameter where
  name := pattern.firstNamedChild?.elim (String.ofList (dropDots pattern.text.toList)) Node.text
  isRest := true

/--
A parameter that may have a type and a default value.
-/
def annotatedParameter (n pattern : Node) : Parameter :=
  let p : Parameter :=
    if pattern.kind = "rest_pattern" then restParameter pattern
    else { name := Text.collapse pattern.text }
  let defaultValue := n.fieldText? "value"
  { p with
    typeAnnotation := (n.fieldText? "type").map Text.cleanType
    defaultValue
    isOptional := n.kind == "optional_parameter" || defaultValue.isSome }

def parameter? (n : Node) : Option Parameter :=
  match n.kind with
  | "required_parameter" | "optional_parameter" =>
    (n.field? "pattern").map (annotatedParameter n)
  | "identifier" | "object_pattern" | "array_pattern" => some { name := Text.collapse n.text }
  | "assignment_pattern" =>
    some
      { name := Text.collapse ((n.fieldText? "left").getD ""),
        defaultValue := n.fieldText? "right",
        isOptional := true }
  | "rest_pattern" => some (restParameter n)
  | _ => none

/--
The parameters of a function. An arrow function may have a single bare one.
-/
def parameters (n : Node) : List Parameter :=
  match n.fieldText? "parameter" with
  | some name => [{ name }]
  | none => (n.field? "parameters").elim [] (·.namedChildren.filterMap parameter?)

def isPrivateMember (member : Node) (name : String) : Bool :=
  Text.startsWith name "#"
    || member.namedChildren.any fun c =>
      c.kind == "accessibility_modifier" && ["private", "protected"].contains (Text.trim c.text)

/--
The record of a function. `value` has the parameters and the body, `declaring` the modifiers, the
decorators and the extent.
-/
def functionDecl (scope : Scope) (scopes : List String) (owner : Option String)
    (value declaring : Node) (name : String) (isExported : Bool) : FunctionDecl where
  name
  qualifiedName := Text.qualify (scopes ++ owner.toList) name separator
  file := scope.file
  start := declaring.start
  stop := declaring.stop
  parameters := parameters value
  returnType := (value.fieldText? "return_type").map Text.cleanType
  isMethod := owner.isSome
  isStatic := owner.isSome && declaring.hasChildKind "static"
  isExported
  isConstructor := owner.isSome && name == "constructor"
  isAsync := value.hasChildKind "async" || declaring.hasChildKind "async"
  className := owner
  decorators := decorators declaring
  bodyStartLine := (value.field? "body").map (·.start.line)
  bodyEndLine := (value.field? "body").map (·.stop.line)

def classDecl (scope : Scope) (n : Node) (name : String) (kind : ClassKind)
    (baseClasses methods : List String) (isExported : Bool) : ClassDecl where
  name
  kind
  file := scope.file
  startLine := n.start.line
  endLine := n.stop.line
  baseClasses
  methods
  isExported

def functionSteps (scope : Scope) (scopes : List String) (value declaring : Node) (name : String)
    (isExported : Bool) (depth : Nat) : List (Step Declared) :=
  [.record (.function declaring (functionDecl scope scopes none value declaring name isExported)),
    .inside name [] (value.field? "body").toList (depth + 1)]

/--
The types named in a clause.
-/
def clauseTypes (clause : Node) : List String := (items clause).map (Text.baseTypeName ·.text)

/--
The base classes in one clause of a class head. JavaScript has the expression itself for a clause.
-/
def heritageTypes (clause : Node) : List String :=
  match clause.kind with
  | "extends_clause" => (clause.fields "value").map (Text.baseTypeName ·.text)
  | "implements_clause" => clauseTypes clause
  | kind => if commentKinds.contains kind then [] else [Text.baseTypeName clause.text]

/--
A function in the body of a class: the node with its parameters and body, the node of the member and
the node of its name.
-/
structure Member where
  value : Node
  declaring : Node
  name : Option Node

def member? (n : Node) : Option Member :=
  match n.kind with
  | "method_definition" | "abstract_method_signature" | "method_signature" =>
    some ⟨n, n, n.field? "name"⟩
  | "public_field_definition" | "field_definition" =>
    ((n.field? "value").filter isFunctionValue).map fun value =>
      ⟨value, n, (n.field? "name").or (n.field? "property")⟩
  | _ => none

def memberSteps (scope : Scope) (scopes : List String) (owner : String) (depth : Nat)
    (member : Member) : List (Step Declared) :=
  match member.name with
  | none => [.skipped]
  | some name =>
    let isExported := !isPrivateMember member.declaring name.text
    [.record (.function member.declaring
        (functionDecl scope scopes (some owner) member.value member.declaring name.text
          isExported)),
      .inside owner [name.text] (member.value.field? "body").toList (depth + 2)]

def bodyNodes (n : Node) : List Node := (n.field? "body").elim [] Node.namedChildren

/--
The steps for a class. A class without a name of its own takes the one it is bound to.
-/
def classSteps (scope : Scope) (scopes : List String) (n : Node) (boundName : Option String)
    (isExported : Bool) (depth : Nat) : List (Step Declared) :=
  match (n.fieldText? "name").or boundName with
  | none => [.skipped]
  | some name =>
    let baseClasses :=
      (n.childOfKind? ["class_heritage"]).elim [] (·.namedChildren.flatMap heritageTypes)
    let members := (bodyNodes n).filterMap member?
    let methods := members.filterMap fun m => m.name.map Node.text
    members.flatMap (memberSteps scope scopes name depth)
      ++ [.record (.type n (classDecl scope n name .plain baseClasses methods isExported))]

/--
The steps for a method of an interface, which has no body to look into.
-/
def signatureSteps (scope : Scope) (scopes : List String) (owner : String) (n : Node) :
    List (Step Declared) :=
  match n.fieldText? "name" with
  | none => [.skipped]
  | some name => [.record (.function n (functionDecl scope scopes (some owner) n n name true))]

def interfaceSteps (scope : Scope) (scopes : List String) (n : Node) : List (Step Declared) :=
  match n.fieldText? "name" with
  | none => [.skipped]
  | some name =>
    let baseClasses := (n.childOfKind? ["extends_type_clause"]).elim [] clauseTypes
    let signatures := (bodyNodes n).filter (·.kind == "method_signature")
    let methods := signatures.filterMap (·.fieldText? "name")
    signatures.flatMap (signatureSteps scope scopes name)
      ++ [.record
        (.type n (classDecl scope n name .interface baseClasses methods (isExportWrapped n)))]

def enumSteps (scope : Scope) (n : Node) : List (Step Declared) :=
  match n.fieldText? "name" with
  | none => [.skipped]
  | some name => [.record (.type n (classDecl scope n name .enum [] [] (isExportWrapped n)))]

/--
A plan for a variable that may be bound to a function or a class. The statement around it carries
the modifiers.
-/
def declaratorPlan (scope : Scope) (scopes : List String) (n : Node) (depth : Nat) :
    Plan Declared :=
  let declaring := n.parent?.getD n
  let isExported := isExportWrapped declaring
  match n.field? "name", n.field? "value" with
  | some name, some value =>
    if name.kind = "identifier" ∧ isFunctionValue value then
      { steps := functionSteps scope scopes value declaring name.text isExported depth }
    else if value.kind = "class" then
      { steps := classSteps scope scopes value (some name.text) isExported depth }
    else .descendOnly
  | _, _ => .descendOnly

def plan : Extract.Planner Declared := fun scope scopes n depth =>
  match n.kind with
  | "function_declaration" | "generator_function_declaration" =>
    match n.fieldText? "name" with
    | none => { steps := [.skipped] }
    | some name => { steps := functionSteps scope scopes n n name (isExportWrapped n) depth }
  | "variable_declarator" => declaratorPlan scope scopes n depth
  | "class_declaration" | "abstract_class_declaration" | "class" =>
    { steps := classSteps scope scopes n none (isExportWrapped n) depth }
  | "interface_declaration" => { steps := interfaceSteps scope scopes n }
  | "enum_declaration" => { steps := enumSteps scope n }
  | _ => .descendOnly

def declarations (scope : Scope) (root : Node) : CountM Declarations :=
  return Declared.assemble (← Extract.declarations plan scope [root])

end Polyglot.TypeScript
