import Polyglot.Config.Limits
import Polyglot.Record.Fallbacks
import Polyglot.Tree.Size

/-!
This module contains what an extraction runs under: the file's name and the limits, and the counts
of fallbacks that grow along the way. It also contains the walk over a tree that all extractions
share.
-/

namespace Polyglot

/--
The file and the limits of one extraction.
-/
structure Scope where
  file : String
  limits : Limits

/--
A computation that counts fallbacks.
-/
abbrev CountM := StateM Fallbacks

namespace CountM

def unknownArg : CountM Unit :=
  modify fun f => { f with unknownArgs := f.unknownArgs + 1 }

def opaqueReceiver : CountM Unit :=
  modify fun f => { f with opaqueReceivers := f.opaqueReceivers + 1 }

def depthLimitedChain : CountM Unit :=
  modify fun f => { f with depthLimitedChains := f.depthLimitedChains + 1 }

def depthLimitedArg : CountM Unit :=
  modify fun f => { f with depthLimitedArgs := f.depthLimitedArgs + 1 }

def skippedDeclaration : CountM Unit :=
  modify fun f => { f with skippedDeclarations := f.skippedDeclarations + 1 }

def truncatedSubtree : CountM Unit :=
  modify fun f => { f with truncatedSubtrees := f.truncatedSubtrees + 1 }

end CountM

namespace Scope

/--
Whether a walk may visit nodes of the given depth. One beyond the limit counts as a truncated
subtree.
-/
def enter (scope : Scope) (depth : Nat) : CountM Bool :=
  if scope.limits.maxTreeDepth < depth then do
    CountM.truncatedSubtree
    return false
  else
    return true

/--
Go on inside the given number of named scopes. If the limit does not allow so many, a truncated
subtree is counted instead.
-/
def enterScope (scope : Scope) (nesting : Nat)
    (inside : nesting ≤ scope.limits.maxScopeDepth → StateT σ CountM Unit) :
    StateT σ CountM Unit :=
  if h : nesting ≤ scope.limits.maxScopeDepth then inside h else CountM.truncatedSubtree

/--
Visit the pending nodes and what is below them in preorder. `visit` says whether the named children
of a node are to be walked, one level deeper; nodes beyond the depth limit are not visited.
-/
def walkPending (scope : Scope) (visit : Node → Nat → StateT σ CountM Bool) :
    List (Node × Nat) → StateT σ CountM Unit
  | [] => pure ()
  | (n, depth) :: pending => do
    if ← scope.enter depth then
      if ← visit n depth then
        scope.walkPending visit (n.namedChildren.map (·, depth + 1) ++ pending)
      else
        scope.walkPending visit pending
    else
      scope.walkPending visit pending
termination_by pending => Node.pendingSize pending
decreasing_by
  · have := n.pendingSize_namedChildren_lt (depth + 1)
    rw [Node.pendingSize_append, Node.pendingSize_cons]
    omega
  all_goals
    have := n.size_pos
    rw [Node.pendingSize_cons]
    omega

/--
Visit `n` and what is below it in preorder, beginning at the given depth.
-/
def walk (scope : Scope) (n : Node) (depth : Nat) (visit : Node → Nat → StateT σ CountM Bool) :
    StateT σ CountM Unit :=
  scope.walkPending visit [(n, depth)]

end Scope

end Polyglot
