import Polyglot.Extract.Scope
import Polyglot.Grammar
import Polyglot.Record.Argument
import Polyglot.Text.Numeral

/-!
This module contains the normalization of arguments.
-/

namespace Polyglot

/--
A node as an argument of the given kind.
-/
def Node.toArgument (n : Node) (kind : ArgumentKind) : Argument := ⟨kind, n.start, n.text⟩

namespace Extract

/--
An argument of which nothing is known.
-/
def unknownKind : CountM ArgumentKind := do
  CountM.unknownArg
  return .unknown none

/--
Normalize an argument that may nest `levels` further levels, its own included.
-/
def argumentAt (g : Grammar) : (levels : Nat) → Node → CountM Argument
  | 0, n => do
    CountM.depthLimitedArg
    return n.toArgument (.unknown none)
  | levels + 1, n => do
    let kind ←
      match g.classifyArg n with
      | .string value => pure (.string value)
      | .number literal =>
        match Text.numeral? literal with
        | some value => pure (.number value)
        | none => unknownKind
      | .boolean value => pure (.boolean value)
      | .null => pure (.unknown (some ArgumentKind.nullLabel))
      | .identifier name => pure (.identifier name)
      | .object entries => do
        let properties ← entries.foldlM (fun properties entry => do
          let (key, value) ←
            match entry with
            | .pair key value => do pure (key, ← argumentAt g levels value)
            | .shorthand name node => pure (name, node.toArgument (.identifier name))
            | .unclassified node => do pure (node.text, node.toArgument (← unknownKind))
          return insertProperty key value properties) []
        pure (.object properties)
      | .array items => do pure (.array (← items.mapM (argumentAt g levels)))
      | .keyword name value => do pure (.object [(name, ← argumentAt g levels value)])
      | .wrapped inner => do pure (← argumentAt g levels inner).kind
      | .unclassified => unknownKind
    return n.toArgument kind

/--
Normalize one argument. A node that the grammar does not know becomes an unknown argument.
-/
def argument (g : Grammar) (scope : Scope) (n : Node) : CountM Argument :=
  argumentAt g (scope.limits.maxArgDepth + 1) n

/--
Normalize the arguments of an argument list, in source order.
-/
def arguments (g : Grammar) (scope : Scope) (list : Node) : CountM (List Argument) :=
  (g.argumentNodes list).mapM (argument g scope)

end Extract

end Polyglot
