import Polyglot.Grammar
import Polyglot.Text.Quote

/-!
This module contains the grammar of TypeScript and JavaScript, which share the node kinds that
matter here.
-/

namespace Polyglot.TypeScript

def separator : String := "."

def commentKinds : List String := ["comment", "html_comment"]

def calleeStep (callee : Node) (arguments : Option Node) : ChainStep :=
  match callee.kind with
  | "member_expression" =>
    .ofMethod callee arguments (callee.field? "property") (callee.field? "object")
  | "identifier" | "import" | "super" => .freeCall callee arguments
  | _ => .invoke callee arguments

def classifyChain (n : Node) : ChainStep :=
  match n.kind with
  | "call_expression" =>
    match n.field? "function" with
    | some callee => calleeStep callee (n.field? "arguments")
    | none => .unclassified
  | "member_expression" => .ofField (n.field? "property") (n.field? "object")
  | "subscript_expression" => .ofInner (n.field? "object")
  | "await_expression" => .ofOperand "await" n.firstNamedChild?
  | "parenthesized_expression" | "non_null_expression" | "as_expression"
  | "satisfies_expression" => .ofInner n.firstNamedChild?
  | "identifier" | "this" | "super" => .terminal
  | _ => .unclassified

/--
The text of a property key, if the key is not computed.
-/
def propertyKey? (key : Node) : Option String :=
  match key.kind with
  | "property_identifier" | "identifier" | "number" | "private_property_identifier" =>
    some key.text
  | "string" => some (Text.unquote key.text)
  | _ => none

def objectEntry (n : Node) : ObjectEntry :=
  match n.kind with
  | "pair" =>
    match (n.field? "key").bind propertyKey?, n.field? "value" with
    | some key, some value => .pair key value
    | _, _ => .unclassified n
  | "shorthand_property_identifier" => .shorthand n.text n
  | _ => .unclassified n

def items (n : Node) : List Node := n.namedChildrenExcept commentKinds

/--
Whether a unary expression is a number literal with a minus before it.
-/
def isNegatedNumber (n : Node) : Bool :=
  n.fieldText? "operator" == some "-" && (n.field? "argument").any (·.kind == "number")

def classifyArg (n : Node) : ArgShape :=
  match n.kind with
  | "string" => .string (Text.unquote n.text)
  | "template_string" =>
    if n.hasChildKind "template_substitution" then .unclassified
    else .string (Text.unquote n.text)
  | "number" => .number n.text
  | "unary_expression" => if isNegatedNumber n then .number n.text else .unclassified
  | "true" => .boolean true
  | "false" => .boolean false
  | "null" | "undefined" => .null
  | "identifier" => if n.text = "undefined" then .null else .identifier n.text
  | "this" => .identifier n.text
  | "object" => .object ((items n).map objectEntry)
  | "array" => .array (items n)
  | "parenthesized_expression" | "non_null_expression" | "as_expression"
  | "satisfies_expression" => .ofInner n.firstNamedChild?
  | _ => .unclassified

/--
The arguments of a call. A tagged template is called with the template in place of a list.
-/
def argumentNodes (n : Node) : List Node :=
  if n.kind = "template_string" then [n] else items n

def grammar : Grammar where
  separator
  linkKinds := ["call_expression", "member_expression"]
  suspendKinds := ["await_expression"]
  commentKinds
  decoratorKinds := ["decorator"]
  classifyChain
  classifyArg
  argumentNodes

end Polyglot.TypeScript
