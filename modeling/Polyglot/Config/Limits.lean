/-!
This module contains the limits that bound an extraction.
-/

namespace Polyglot

structure Limits where
  /-- Steps of one chain walk. -/
  maxChainDepth : Nat := 256
  /-- Levels of nesting inside one argument. -/
  maxArgDepth : Nat := 32
  /-- Levels of the syntax tree. -/
  maxTreeDepth : Nat := 512
  /-- Named scopes around a declaration. -/
  maxScopeDepth : Nat := 64
deriving DecidableEq, Repr, Inhabited

end Polyglot
