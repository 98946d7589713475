import Polyglot.Record.Position
import Polyglot.Text.Binary64

/-!
This module contains the normalized arguments of a call. Every argument keeps the position and the
text of the expression that it stands for.
-/

namespace Polyglot

/--
Something read off an expression, with the place and the text of that expression.
-/
structure Located (κ : Type) where
  kind : κ
  position : Position
  text : String
deriving Repr, Inhabited

/--
What an argument is. The properties of an object are ordered by key, and each key occurs once.
An unknown argument carries a label only where it stands for a null value.
-/
inductive ArgumentKind where
  | string (value : String)
  | number (value : Binary64)
  | boolean (value : Bool)
  | identifier (name : String)
  | object (properties : List (String × Located ArgumentKind))
  | array (elements : List (Located ArgumentKind))
  | unknown (label : Option String)
deriving Repr, Inhabited

abbrev Argument := Located ArgumentKind

namespace ArgumentKind

def name : ArgumentKind → String
  | string _ => "string"
  | number _ => "number"
  | boolean _ => "boolean"
  | identifier _ => "identifier"
  | object _ => "object"
  | array _ => "array"
  | unknown _ => "unknown"

/--
The names of all kinds, in the order of the constructors.
-/
def names : List String :=
  ["string", "number", "boolean", "identifier", "object", "array", "unknown"]

def isUnknown : ArgumentKind → Bool
  | unknown _ => true
  | _ => false

/--
The label of null values.
-/
def nullLabel : String := "null"

end ArgumentKind

/--
Add a property in key order. A property with the same key is replaced.
-/
def insertProperty (key : String) (value : α) : List (String × α) → List (String × α)
  | [] => [(key, value)]
  | (k, v) :: rest =>
    if key < k then (key, value) :: (k, v) :: rest
    else if key = k then (key, value) :: rest
    else (k, v) :: insertProperty key value rest

end Polyglot
