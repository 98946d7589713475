import Polyglot.Grammar
import Polyglot.Text.Quote

/-!
This module contains the grammar of Python.
-/

namespace Polyglot.Python

def separator : String := "."

def commentKinds : List String := ["comment"]

def calleeStep (callee : Node) (arguments : Option Node) : ChainStep :=
  match callee.kind with
  | "attribute" =>
    .ofMethod callee arguments (callee.field? "attribute") (callee.field? "object")
  | "identifier" => .freeCall callee arguments
  | _ => .invoke callee arguments

def classifyChain (n : Node) : ChainStep :=
  match n.kind with
  | "call" =>
    match n.field? "function" with
    | some callee => calleeStep callee (n.field? "arguments")
    | none => .unclassified
  | "attribute" => .ofField (n.field? "attribute") (n.field? "object")
  | "subscript" => .ofInner (n.field? "value")
  | "await" => .ofOperand "await" n.firstNamedChild?
  | "parenthesized_expression" => .ofInner n.firstNamedChild?
  | "identifier" => .terminal
  | _ => .unclassified

/--
Whether a string has expressions inside.
-/
def isInterpolated (n : Node) : Bool := n.hasChildKind "interpolation"

/--
The text of a dictionary key, if the key is a plain one.
-/
def dictionaryKey? (key : Node) : Option String :=
  match key.kind with
  | "string" => if isInterpolated key then none else some (Text.unquote key.text)
  | "identifier" | "integer" | "float" | "true" | "false" => some key.text
  | _ => none

def dictionaryEntry (n : Node) : ObjectEntry :=
  match n.kind with
  | "pair" =>
    match (n.field? "key").bind dictionaryKey?, n.field? "value" with
    | some key, some value => .pair key value
    | _, _ => .unclassified n
  | _ => .unclassified n

def items (n : Node) : List Node := n.namedChildrenExcept commentKinds

/--
Whether a unary expression is a number literal with a minus before it.
-/
def isNegatedNumber (n : Node) : Bool :=
  n.fieldText? "operator" == some "-"
    && (n.field? "argument").any (["integer", "float"].contains ·.kind)

def classifyArg (n : Node) : ArgShape :=
  match n.kind with
  | "string" => if isInterpolated n then .unclassified else .string (Text.unquote n.text)
  | "concatenated_string" =>
    if n.namedChildren.any isInterpolated then .unclassified
    else .string (String.join (n.namedChildren.map (Text.unquote ·.text)))
  | "integer" | "float" => .number n.text
  | "unary_operator" => if isNegatedNumber n then .number n.text else .unclassified
  | "true" => .boolean true
  | "false" => .boolean false
  | "none" => .null
  | "identifier" => .identifier n.text
  | "dictionary" => .object ((items n).map dictionaryEntry)
  | "list" | "tuple" | "set" => .array (items n)
  | "keyword_argument" =>
    match n.fieldText? "name", n.field? "value" with
    | some name, some value => .keyword name value
    | _, _ => .unclassified
  | "parenthesized_expression" => .ofInner n.firstNamedChild?
  | _ => .unclassified

/--
The arguments of a call. A bare generator is called with itself in place of a list.
-/
def argumentNodes (n : Node) : List Node :=
  if n.kind = "generator_expression" then [n] else items n

def grammar : Grammar where
  separator
  linkKinds := ["call", "attribute"]
  suspendKinds := ["await"]
  commentKinds
  decoratorKinds := ["decorator"]
  classifyChain
  classifyArg
  argumentNodes

end Polyglot.Python
