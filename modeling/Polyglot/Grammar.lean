import Polyglot.Text.Blank
import Polyglot.Tree.Node

/-!
This module contains what a language tells of its node kinds. The extraction of chains and of
arguments is written once, over the step of a chain and the shape of an argument that a grammar
assigns to a node; kinds that a grammar does not know are opaque.
-/

namespace Polyglot

/--
How a walk along a chain treats a node.
-/
inductive ChainStep where
  /-- `receiver.name(arguments)`; the walk goes on at the receiver. -/
  | methodCall (name : Node) (arguments : Option Node) (receiver : Node)
  /-- `name(arguments)`; ends the walk without a receiver. -/
  | freeCall (name : Node) (arguments : Option Node)
  /-- `path::name(arguments)`; ends the walk with the path as the receiver. -/
  | pathCall (path : Option Node) (name : Node) (arguments : Option Node)
  /-- `path::name!(...)`; ends the walk like a path call, without arguments. -/
  | macroCall (path : Option Node) (name : Node)
  /-- A call of a computed callee, at which the walk goes on. -/
  | invoke (callee : Node) (arguments : Option Node)
  /-- `base.name`; the walk goes on at the base. -/
  | field (name base : Node)
  /-- A suspension mark such as `await`; the walk goes on at the operand. -/
  | suspend (mark : String) (operand : Node)
  /-- Parentheses, indexing and the like, which leave no segment. -/
  | transparent (inner : Node)
  /-- An identifier or a path that begins the chain. -/
  | terminal
  /-- Anything else; its text is the receiver. -/
  | unclassified

namespace ChainStep

/--
A transparent step, if there is something inside.
-/
def ofInner : Option Node → ChainStep
  | some inner => transparent inner
  | none => unclassified

def ofOperand (mark : String) : Option Node → ChainStep
  | some operand => suspend mark operand
  | none => unclassified

def ofField : (name base : Option Node) → ChainStep
  | some name, some base => field name base
  | _, _ => unclassified

/--
A call whose callee is a field access with the given parts. If one is missing, the callee is
computed.
-/
def ofMethod (callee : Node) (arguments : Option Node) : (name receiver : Option Node) → ChainStep
  | some name, some receiver => methodCall name arguments receiver
  | _, _ => invoke callee arguments

end ChainStep

/--
One entry of an object literal.
-/
inductive ObjectEntry where
  | pair (key : String) (value : Node)
  /-- `name` alone, which stands for `name: name`. -/
  | shorthand (name : String) (node : Node)
  /-- Spreads, computed keys and methods. -/
  | unclassified (node : Node)

/--
The shape of an argument.
-/
inductive ArgShape where
  | string (value : String)
  /-- The text of a number literal. -/
  | number (literal : String)
  | boolean (value : Bool)
  | null
  | identifier (name : String)
  | object (entries : List ObjectEntry)
  | array (items : List Node)
  /-- `name=value`. -/
  | keyword (name : String) (value : Node)
  /-- A wrapper around the real argument, such as `&x` or `(x)`. -/
  | wrapped (inner : Node)
  | unclassified

def ArgShape.ofInner : Option Node → ArgShape
  | some inner => wrapped inner
  | none => unclassified

/--
The grammar of a language, as far as it matters here.
-/
structure Grammar where
  /-- What separates the parts of a qualified name. -/
  separator : String
  /-- Calls and field accesses. -/
  linkKinds : List String
  /-- Suspension marks, which may also be the outermost node of a chain. -/
  suspendKinds : List String
  commentKinds : List String
  decoratorKinds : List String
  classifyChain : Node → ChainStep
  classifyArg : Node → ArgShape
  /-- The arguments of an argument list, in source order. -/
  argumentNodes : Node → List Node

namespace Grammar

def isComment (g : Grammar) (kind : String) : Bool := g.commentKinds.contains kind

def isDecorator (g : Grammar) (kind : String) : Bool := g.decoratorKinds.contains kind

def isLink (g : Grammar) (kind : String) : Bool := g.linkKinds.contains kind

/--
Whether nodes of this kind may be the outermost node of a chain.
-/
def isChainRoot (g : Grammar) (kind : String) : Bool :=
  g.isLink kind || g.suspendKinds.contains kind

/--
The texts of the decorators directly before `n`, in source order. Comments may stand between them;
anything else ends the search.
-/
def precedingDecorators (g : Grammar) (n : Node) : List String :=
  let run := n.prevSiblings.takeWhile fun s => g.isDecorator s.kind || g.isComment s.kind
  ((run.filter (g.isDecorator ·.kind)).map (Text.trim ·.text)).reverse

/--
The texts of the decorators among the children of `n`.
-/
def childDecorators (g : Grammar) (n : Node) : List String :=
  (n.namedChildren.filter (g.isDecorator ·.kind)).map (Text.trim ·.text)

end Grammar

/--
The named children whose kind is none of the given ones.
-/
def Node.namedChildrenExcept (n : Node) (kinds : List String) : List Node :=
  n.namedChildren.filter (!kinds.contains ·.kind)

end Polyglot
