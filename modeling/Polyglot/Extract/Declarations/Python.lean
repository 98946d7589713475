import Polyglot.Extract.Declarations
import Polyglot.Grammar.Python
import Polyglot.Text.Affix
import Polyglot.Text.TypeName

/-!
This module contains the declarations of Python: functions, methods and classes.
-/

namespace Polyglot.Python

open Extract (Step Plan Declared)

/--
Whether a name is public by convention: no leading underscore, or two on both sides.
-/
def isPublicName (name : String) : Bool :=
  !Text.startsWith name "_"
    || (4 < name.utf8ByteSize && Text.startsWith name "__" && Text.endsWith name "__")

/--
The definition below decorators, or the node itself.
-/
def undecorated (n : Node) : Node :=
  if n.kind = "decorated_definition" then (n.field? "definition").getD n else n

/--
A parameter, possibly behind `*` or `**`.
-/
def splatOrNamed (n : Node) : Parameter :=
  if ["list_splat_pattern", "dictionary_splat_pattern"].contains n.kind then
    { name :=
        n.firstNamedChild?.elim (String.ofList (n.text.toList.dropWhile (· == '*'))) Node.text,
      isRest := true }
  else { name := n.text }

def parameter? (n : Node) : Option Parameter :=
  match n.kind with
  | "identifier" => some { name := n.text }
  | "typed_parameter" =>
    n.firstNamedChild?.map fun inner =>
      { splatOrNamed inner with typeAnnotation := (n.fieldText? "type").map Text.cleanType }
  | "default_parameter" | "typed_default_parameter" =>
    some
      { name := (n.fieldText? "name").getD "",
        typeAnnotation := (n.fieldText? "type").map Text.cleanType,
        defaultValue := (n.fieldText? "value").map Text.collapse,
        isOptional := true }
  | "list_splat_pattern" | "dictionary_splat_pattern" => some (splatOrNamed n)
  | _ => none

def parameters (n : Node) : List Parameter :=
  (n.field? "parameters").elim [] (·.namedChildren.filterMap parameter?)

def isStaticMark (decorator : String) : Bool :=
  Text.trim (String.ofList (decorator.toList.dropWhile (· == '@'))) == "staticmethod"

/--
The record of a function with the given name, which is a method if it has a class. A method without
a receiver is static.
-/
def functionDecl (scope : Scope) (scopes : List String) (className : Option String) (n : Node)
    (name : String) : FunctionDecl :=
  let parameters := parameters n
  let decorators := grammar.precedingDecorators n
  let hasReceiver := parameters.head?.any (["self", "cls"].contains ·.name)
  let body := n.field? "body"
  { name
    qualifiedName := Text.qualify (scopes ++ className.toList) name separator
    file := scope.file
    start := n.start
    stop := n.stop
    parameters
    returnType := (n.fieldText? "return_type").map Text.cleanType
    isMethod := className.isSome
    isStatic := className.isSome && (decorators.any isStaticMark || !hasReceiver)
    isExported := isPublicName name
    isConstructor := className.isSome && name == "__init__"
    isAsync := n.hasChildKind "async"
    className
    decorators
    bodyStartLine := body.map (·.start.line)
    bodyEndLine := body.map (·.stop.line) }

def bodyNodes (n : Node) : List Node := (n.field? "body").elim [] Node.namedChildren

def isFunction (n : Node) : Bool := n.kind == "function_definition"

def functionSteps (scope : Scope) (scopes : List String) (n : Node) (depth : Nat) :
    List (Step Declared) :=
  match n.fieldText? "name" with
  | none => [.skipped]
  | some name =>
    [.record (.function n (functionDecl scope scopes none n name)),
      .inside name [] (bodyNodes n) (depth + 1)]

def methodSteps (scope : Scope) (scopes : List String) (className : String) (n : Node)
    (depth : Nat) : List (Step Declared) :=
  match n.fieldText? "name" with
  | none => [.skipped]
  | some name =>
    [.record (.function n (functionDecl scope scopes (some className) n name)),
      .inside className [name] (bodyNodes n) (depth + 1)]

/--
The steps for one statement in the body of a class: a method, or anything else, which may hold
further declarations.
-/
def memberSteps (scope : Scope) (scopes : List String) (className : String) (depth : Nat)
    (n : Node) : List (Step Declared) :=
  if isFunction (undecorated n) then methodSteps scope scopes className (undecorated n) depth
  else [.inside className [] [n] depth]

def baseClasses (n : Node) : List String :=
  (n.field? "superclasses").elim [] fun list =>
    (list.namedChildrenExcept ["keyword_argument", "comment"]).map (Text.collapse ·.text)

/--
The names of the methods of a class.
-/
def methodNames (n : Node) : List String :=
  (((bodyNodes n).map undecorated).filter isFunction).filterMap (·.fieldText? "name")

def classSteps (scope : Scope) (scopes : List String) (n : Node) (depth : Nat) :
    List (Step Declared) :=
  match n.fieldText? "name" with
  | none => [.skipped]
  | some name =>
    let decl : ClassDecl :=
      { name
        kind := .plain
        file := scope.file
        startLine := n.start.line
        endLine := n.stop.line
        baseClasses := baseClasses n
        methods := methodNames n
        isExported := isPublicName name }
    (bodyNodes n).flatMap (memberSteps scope scopes name (depth + 1)) ++ [.record (.type n decl)]

def plan : Extract.Planner Declared := fun scope scopes n depth =>
  match n.kind with
  | "function_definition" => { steps := functionSteps scope scopes n depth }
  | "class_definition" => { steps := classSteps scope scopes n depth }
  | _ => .descendOnly

def declarations (scope : Scope) (root : Node) : CountM Declarations :=
  return Declared.assemble (← Extract.declarations plan scope [root])

end Polyglot.Python
