import Polyglot.Extract.Chains
import Polyglot.Extract.Linkage.Python
import Polyglot.Extract.Linkage.Rust
import Polyglot.Extract.Linkage.TypeScript
import Polyglot.Extract.Declarations.TypeScript
import Polyglot.Record.File

/-!
This module contains the choice of a language's extractions, and all of them together on one tree.
-/

namespace Polyglot

namespace Language

def grammar : Language → Grammar
  | rust => Rust.grammar
  | typescript | javascript => TypeScript.grammar
  | python => Python.grammar

/--
The functions and classes below `root`.
-/
def declarations : Language → Scope → (root : Node) → CountM Declarations
  | rust => Rust.declarations
  | typescript | javascript => TypeScript.declarations
  | python => Python.declarations

/--
The imports among the children of `root`.
-/
def imports : Language → (root : Node) → List ImportDecl
  | rust => Rust.imports
  | typescript | javascript => TypeScript.imports
  | python => Python.imports

/--
The exports among the children of `root`.
-/
def exports : Language → (root : Node) → List ExportDecl
  | rust => Rust.exports
  | typescript | javascript => TypeScript.exports
  | python => Python.exports

end Language

/--
Everything that is read off the tree at `root`, with the fallbacks on the way.
-/
def Facts.ofTree (language : Language) (scope : Scope) (root : Node) : Facts :=
  let (facts, fallbacks) := Id.run (extraction.run {})
  { facts with fallbacks }
where
  extraction : CountM Facts := do
    let callChains ← Extract.callChains language.grammar scope root
    let { functions, classes } ← language.declarations scope root
    return { callChains, functions, classes, imports := language.imports root,
             exports := language.exports root }

end Polyglot
