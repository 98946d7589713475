import Polyglot.Grammar
import Polyglot.Text.Affix
import Polyglot.Text.Quote
import Polyglot.Tree.Size

/-!
This module contains the grammar of Rust.
-/

namespace Polyglot.Rust

def separator : String := "::"

def commentKinds : List String := ["line_comment", "block_comment"]

/--
The step of a call with the given callee. Generic arguments on the callee do not matter.
-/
def calleeStep (callee : Node) (arguments : Option Node) : ChainStep :=
  match callee.kind with
  | "identifier" => .freeCall callee arguments
  | "field_expression" =>
    .ofMethod callee arguments (callee.field? "field") (callee.field? "value")
  | "scoped_identifier" =>
    match callee.field? "name" with
    | some name => .pathCall (callee.field? "path") name arguments
    | none => .invoke callee arguments
  | "generic_function" =>
    match _h : callee.field? "function" with
    | some inner => calleeStep inner arguments
    | none => .invoke callee arguments
  | _ => .invoke callee arguments
termination_by callee.size
decreasing_by exact Node.size_lt_of_field ‹_›

def classifyChain (n : Node) : ChainStep :=
  match n.kind with
  | "call_expression" =>
    match n.field? "function" with
    | some callee => calleeStep callee (n.field? "arguments")
    | none => .unclassified
  | "field_expression" => .ofField (n.field? "field") (n.field? "value")
  | "macro_invocation" =>
    match n.field? "macro" with
    | some name =>
      if name.kind = "scoped_identifier" then
        match name.field? "name" with
        | some last => .macroCall (name.field? "path") last
        | none => .unclassified
      else .macroCall none name
    | none => .unclassified
  | "await_expression" => .ofOperand "await" n.firstNamedChild?
  | "try_expression" => .ofOperand "?" n.firstNamedChild?
  | "index_expression" | "parenthesized_expression" => .ofInner n.firstNamedChild?
  | "identifier" | "self" | "scoped_identifier" | "crate" | "super" => .terminal
  | _ => .unclassified

/--
One field of a struct literal.
-/
def structEntry (n : Node) : ObjectEntry :=
  match n.kind with
  | "field_initializer" =>
    match n.field? "field", n.field? "value" with
    | some key, some value => .pair key.text value
    | _, _ => .unclassified n
  | "shorthand_field_initializer" =>
    match n.firstNamedChild? with
    | some name => .shorthand name.text n
    | none => .unclassified n
  | _ => .unclassified n

/--
The items of an argument list, an array or a tuple.
-/
def items (n : Node) : List Node := n.namedChildrenExcept ("attribute_item" :: commentKinds)

/--
Whether a unary expression is a number literal with a minus before it.
-/
def isNegatedNumber (n : Node) : Bool :=
  n.firstNamedChild?.any (["integer_literal", "float_literal"].contains ·.kind)
    && Text.startsWith (String.ofList (Text.dropBlanks n.text.toList)) "-"

def classifyArg (n : Node) : ArgShape :=
  match n.kind with
  | "string_literal" | "raw_string_literal" | "char_literal" => .string (Text.unquote n.text)
  | "integer_literal" | "float_literal" | "negative_literal" => .number n.text
  | "unary_expression" => if isNegatedNumber n then .number n.text else .unclassified
  | "boolean_literal" => .boolean (n.text == "true")
  | "identifier" => if n.text = "None" then .null else .identifier n.text
  | "self" | "scoped_identifier" => .identifier n.text
  | "struct_expression" =>
    match n.field? "body" with
    | some body => .object ((body.namedChildrenExcept commentKinds).map structEntry)
    | none => .unclassified
  -- `[0; 16]` repeats an element and does not list the elements.
  | "array_expression" => if n.hasChildKind ";" then .unclassified else .array (items n)
  | "tuple_expression" => .array (items n)
  | "reference_expression" => .ofInner (n.field? "value")
  | "parenthesized_expression" => .ofInner n.firstNamedChild?
  | _ => .unclassified

def grammar : Grammar where
  separator
  linkKinds := ["call_expression", "field_expression", "macro_invocation"]
  suspendKinds := ["await_expression", "try_expression"]
  commentKinds
  decoratorKinds := ["attribute_item"]
  classifyChain
  classifyArg
  argumentNodes := items

end Polyglot.Rust
