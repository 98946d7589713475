import Polyglot.Record.Position

/-!
This module contains the records of declared functions and classes.
-/

namespace Polyglot

structure Parameter where
  name : String
  typeAnnotation : Option String := none
  defaultValue : Option String := none
  isRest : Bool := false
  isOptional : Bool := false
deriving DecidableEq, Repr, Inhabited

structure FunctionDecl where
  name : String
  qualifiedName : String
  file : String
  start : Position
  stop : Position
  parameters : List Parameter
  returnType : Option String
  isMethod : Bool
  isStatic : Bool
  isExported : Bool
  isConstructor : Bool
  isAsync : Bool
  className : Option String
  decorators : List String
  bodyStartLine : Option UInt32
  bodyEndLine : Option UInt32
deriving DecidableEq, Repr, Inhabited

inductive ClassKind where
  | plain
  | struct
  | enum
  | trait
  | interface
deriving DecidableEq, Repr, Inhabited

namespace ClassKind

def all : List ClassKind := [plain, struct, enum, trait, interface]

def name : ClassKind → String
  | plain => "class"
  | struct => "struct"
  | enum => "enum"
  | trait => "trait"
  | interface => "interface"

def ofName? (name : String) : Option ClassKind := all.find? (·.name = name)

end ClassKind

structure ClassDecl where
  name : String
  kind : ClassKind
  file : String
  startLine : UInt32
  endLine : UInt32
  baseClasses : List String
  methods : List String
  isExported : Bool
deriving DecidableEq, Repr, Inhabited

/--
The declarations of a file, in the order in which they are completed.
-/
structure Declarations where
  functions : List FunctionDecl := []
  classes : List ClassDecl := []
deriving DecidableEq, Repr, Inhabited

end Polyglot
