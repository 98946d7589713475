import Polyglot.Extract.Declarations
import Polyglot.Grammar.RustPath
import Polyglot.Text.TypeName

/-!
This module contains the declarations of Rust: functions, types and traits, and how the impl blocks
of a file join the types that they are for.
-/

namespace Polyglot.Rust

/--
An impl block. `typeName` is the type as written without generic arguments, `target` the same type
resolved from the root of the file.
-/
structure ImplBlock where
  typeName : String
  target : String
  traitName : Option String
  methods : List String
deriving DecidableEq, Repr

/--
Something declared, with the declaring node. Types that an impl block can join have a path.
-/
inductive Item where
  | function (node : Node) (decl : FunctionDecl)
  | type (node : Node) (decl : ClassDecl) (path : String)
  | trait (node : Node) (decl : ClassDecl)
  | impl (node : Node) (block : ImplBlock)

/--
The impl block or the trait around a function. Functions of traits and of trait impls have no
visibility of their own.
-/
structure Owner where
  className : String
  exported : Option Bool

def isPub (n : Node) : Bool :=
  n.namedChildren.any fun c => c.kind == "visibility_modifier" && Text.strip c.text == "pub"

def parameter? (n : Node) : Option Parameter :=
  match n.kind with
  | "self_parameter" =>
    some
      { name := "self",
        typeAnnotation := if Text.strip n.text = "self" then none else some (Text.trim n.text) }
  | "parameter" =>
    let pattern := Text.trim ((n.fieldText? "pattern").getD "_")
    some
      { name := Text.trim ((Text.dropStart? pattern "mut ").getD pattern),
        typeAnnotation := (n.fieldText? "type").map Text.cleanType }
  | "variadic_parameter" => some { name := "...", isRest := true }
  | _ => none

/--
Whether a parameter is the receiver of a method.
-/
def isReceiver (n : Node) (p : Parameter) : Bool :=
  n.kind == "self_parameter" || (n.kind == "parameter" && p.name == "self")

/--
The record of a function with the given name inside `scopes`.
-/
def functionDecl (scope : Scope) (scopes : List String) (owner : Option Owner) (n : Node)
    (name : String) : FunctionDecl :=
  let params := (n.field? "parameters").elim [] Node.namedChildren
  let hasReceiver := params.any fun p => (parameter? p).any (isReceiver p)
  let body := n.field? "body"
  { name
    qualifiedName := Text.qualify scopes name separator
    file := scope.file
    start := n.start
    stop := n.stop
    parameters := params.filterMap parameter?
    returnType := (n.fieldText? "return_type").map Text.cleanType
    isMethod := owner.isSome
    isStatic := owner.isSome && !hasReceiver
    isExported := (owner.bind (·.exported)).getD (isPub n)
    isConstructor := owner.isSome && !hasReceiver && name == "new"
    isAsync := n.namedChildren.any fun c => c.kind == "function_modifiers" && c.hasChildKind "async"
    className := owner.map (·.className)
    decorators := grammar.precedingDecorators n
    bodyStartLine := body.map (·.start.line)
    bodyEndLine := body.map (·.stop.line) }

def bodyNodes (n : Node) : List Node := (n.field? "body").elim [] Node.namedChildren

/--
The record of a type or a trait.
-/
def classDecl (scope : Scope) (n : Node) (name : String) (kind : ClassKind)
    (baseClasses methods : List String) : ClassDecl where
  name
  kind
  file := scope.file
  startLine := n.start.line
  endLine := n.stop.line
  baseClasses
  methods
  isExported := isPub n

open Extract (Step Plan)

def isFunction (n : Node) : Bool :=
  ["function_item", "function_signature_item"].contains n.kind

/--
The steps for one function in an impl block or a trait called `outer`.
-/
def memberSteps (scope : Scope) (scopes : List String) (outer : String) (owner : Owner)
    (depth : Nat) (n : Node) : List (Step Item) :=
  match n.fieldText? "name" with
  | none => [.skipped]
  | some name =>
    [.record (.function n (functionDecl scope (scopes ++ [outer]) (some owner) n name)),
      .inside outer [name] (bodyNodes n) (depth + 1)]

/--
The functions in the body of an impl block or a trait, at the given depth: the steps for them, and
the names of those that have one.
-/
def members (scope : Scope) (scopes : List String) (outer : String) (owner : Owner) (n : Node)
    (depth : Nat) : List (Step Item) × List String :=
  match n.field? "body" with
  | none => ([], [])
  | some body =>
    if scope.limits.maxTreeDepth < depth then ([.truncated], [])
    else
      let functions := body.namedChildren.filter isFunction
      (functions.flatMap (memberSteps scope scopes outer owner depth),
        functions.filterMap (·.fieldText? "name"))

def implSteps (scope : Scope) (scopes : List String) (n : Node) (depth : Nat) :
    List (Step Item) :=
  match n.fieldText? "type" with
  | none => [.skipped]
  | some type =>
    let typeName := Text.baseTypeName type
    let traitName := (n.fieldText? "trait").map Text.baseTypeName
    let outer := traitName.elim typeName fun t => "<" ++ typeName ++ " as " ++ t ++ ">"
    let owner : Owner :=
      { className := traitName.elim typeName fun t => t ++ " for " ++ typeName,
        exported := traitName.map fun _ => true }
    let (steps, methods) := members scope scopes outer owner n (depth + 1)
    let block : ImplBlock := { typeName, target := resolve scopes typeName, traitName, methods }
    steps ++ [.record (.impl n block)]

/--
The traits that a trait requires.
-/
def supertraits (n : Node) : List String :=
  match n.field? "bounds" with
  | none => []
  | some bounds =>
    ((bounds.namedChildrenExcept ("lifetime" :: commentKinds)).map
      (Text.baseTypeName ·.text)).filter (· ≠ "")

def traitSteps (scope : Scope) (scopes : List String) (n : Node) (depth : Nat) :
    List (Step Item) :=
  match n.fieldText? "name" with
  | none => [.skipped]
  | some name =>
    let owner : Owner := { className := name, exported := some (isPub n) }
    let (steps, methods) := members scope scopes name owner n (depth + 1)
    steps ++ [.record (.trait n (classDecl scope n name .trait (supertraits n) methods))]

def typeSteps (scope : Scope) (scopes : List String) (n : Node) : List (Step Item) :=
  match n.fieldText? "name" with
  | none => [.skipped]
  | some name =>
    let kind : ClassKind := if n.kind = "enum_item" then .enum else .struct
    [.record (.type n (classDecl scope n name kind [] []) (Text.qualify scopes name separator))]

def functionSteps (scope : Scope) (scopes : List String) (n : Node) (depth : Nat) :
    List (Step Item) :=
  match n.fieldText? "name" with
  | none => [.skipped]
  | some name =>
    [.record (.function n (functionDecl scope scopes none n name)),
      .inside name [] (bodyNodes n) (depth + 1)]

def moduleSteps (n : Node) (depth : Nat) : List (Step Item) :=
  match n.fieldText? "name" with
  | none => []
  | some name => [.inside name [] (bodyNodes n) (depth + 1)]

def plan : Extract.Planner Item := fun scope scopes n depth =>
  match n.kind with
  | "function_item" | "function_signature_item" => { steps := functionSteps scope scopes n depth }
  | "impl_item" => { steps := implSteps scope scopes n depth }
  | "trait_item" => { steps := traitSteps scope scopes n depth }
  | "struct_item" | "enum_item" | "union_item" => { steps := typeSteps scope scopes n }
  | "mod_item" => { steps := moduleSteps n depth }
  | _ => .descendOnly

namespace Item

def function? : Item → Option FunctionDecl
  | function _ decl => some decl
  | _ => none

def path? : Item → Option String
  | type _ _ path => some path
  | _ => none

def impl? : Item → Option ImplBlock
  | impl _ block => some block
  | _ => none

end Item

/--
Whether an impl block joins the type at `path`, among types at `paths`. A block whose type is one of
them joins that type only. Any other block joins by name, if only one type has that name.
-/
def ImplBlock.joins (block : ImplBlock) (paths : List String) (path : String) : Bool :=
  let name := lastSegment path
  block.target == path
    || (paths.countP (lastSegment · == name) == 1
      && lastSegment block.typeName == name
      && !paths.contains block.target)

/--
A class with what a joined impl block adds: a trait, once, or the methods of an inherent block.
-/
def ImplBlock.joinTo (c : ClassDecl) (block : ImplBlock) : ClassDecl :=
  match block.traitName with
  | some t => if c.baseClasses.contains t then c else { c with baseClasses := c.baseClasses ++ [t] }
  | none => { c with methods := c.methods ++ block.methods }

def joinBlocks (paths : List String) (blocks : List ImplBlock) (path : String) (c : ClassDecl) :
    ClassDecl :=
  (blocks.filter (·.joins paths path)).foldl ImplBlock.joinTo c

/--
The class that an item declares, once the impl blocks of the file have joined it.
-/
def Item.class? (paths : List String) (blocks : List ImplBlock) : Item → Option ClassDecl
  | type _ decl path => some (joinBlocks paths blocks path decl)
  | trait _ decl => some decl
  | _ => none

/--
The functions and the classes among the items of a file.
-/
def assemble (items : List Item) : Declarations where
  functions := items.filterMap Item.function?
  classes := items.filterMap (Item.class? (items.filterMap Item.path?) (items.filterMap Item.impl?))

def declarations (scope : Scope) (root : Node) : CountM Declarations :=
  return assemble (← Extract.declarations plan scope root.namedChildren)

end Polyglot.Rust
