import Polyglot.Record.Position

/-!
This module contains the records of imports and exports.
-/

namespace Polyglot

/--
One name that an import brings in or an export sends out. For an import `imported` is the name in
the other module and `bound` the name that it has here; for an export `imported` is the name here
and `bound` the one that others see.
-/
structure Binding where
  imported : String
  bound : String
  isDefault : Bool := false
  isNamespace : Bool := false
deriving DecidableEq, Repr, Inhabited

namespace Binding

def same (name : String) : Binding := { imported := name, bound := name }

def ofDefault (bound : String) : Binding := { imported := "default", bound, isDefault := true }

/--
The one binding of a wildcard.
-/
def wildcard (bound : String) : Binding := { imported := "*", bound, isNamespace := true }

end Binding

structure ImportDecl where
  source : String
  bindings : List Binding
  line : UInt32
  isTypeOnly : Bool
deriving DecidableEq, Repr, Inhabited

/--
An export has a source only if it passes on names of another module.
-/
structure ExportDecl where
  source : Option String
  bindings : List Binding
  line : UInt32
  isTypeOnly : Bool
deriving DecidableEq, Repr, Inhabited

end Polyglot
