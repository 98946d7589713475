import Polyglot.Extract.Arguments
import Polyglot.Record.CallChain
import Std.Data.HashSet

/-!
This module contains the extraction of call chains: walking one chained expression from its
outermost node to its receiver, and finding the outermost nodes of all chains of a tree.
-/

namespace Polyglot.Extract

def callArguments (g : Grammar) (scope : Scope) (list : Option Node) : CountM (List Argument) :=
  match list with
  | some list => arguments g scope list
  | none => pure []

/--
Walk from `n` towards the receiver in at most `steps` steps. `segments` are those found so far, in
written order. The result is the receiver and all segments, or `none` if the steps do not suffice.
-/
def walkChain (g : Grammar) (scope : Scope) :
    (steps : Nat) → Node → List Segment → CountM (Option (String × List Segment))
  | 0, _, _ => do
    CountM.depthLimitedChain
    return none
  | steps + 1, n, segments =>
    match g.classifyChain n with
    | .methodCall name list receiver => do
      let args ← callArguments g scope list
      walkChain g scope steps receiver (.call name.text args name.start :: segments)
    | .freeCall name list => do
      let args ← callArguments g scope list
      return some ("", .call name.text args name.start :: segments)
    | .pathCall path name list => do
      let args ← callArguments g scope list
      return some ((path.map Node.text).getD "", .call name.text args name.start :: segments)
    | .macroCall path name =>
      return some ((path.map Node.text).getD "", .call (name.text ++ "!") [] name.start :: segments)
    | .invoke callee list => do
      let args ← callArguments g scope list
      walkChain g scope steps callee
        (.call "()" args ((list.map Node.start).getD n.stop) :: segments)
    | .field name base =>
      walkChain g scope steps base (.access name.text name.start :: segments)
    | .suspend mark operand =>
      let position := ((n.childOfKind? [mark]).map Node.start).getD n.start
      walkChain g scope steps operand (.access mark position :: segments)
    | .transparent inner => walkChain g scope steps inner segments
    | .terminal => return some (n.text, segments)
    | .unclassified => do
      CountM.opaqueReceiver
      return some (n.text, segments)

/--
The chain whose outermost node is `n`. There is none if no segment is found, or if the chain is
longer than the limit allows.
-/
def callChain (g : Grammar) (scope : Scope) (n : Node) : CountM (Option CallChain) := do
  match ← walkChain g scope scope.limits.maxChainDepth n [] with
  | none => return none
  | some (_, []) => return none
  | some (receiver, segments) =>
    return some
      { receiver, segments, raw := n.text, file := scope.file, start := n.start, stop := n.stop }

/--
The node and all nodes below it, as far as they are reached through named nodes, in preorder.
-/
def namedSubtree (n : Node) : List Node :=
  n :: n.namedChildren.attach.flatMap fun ⟨c, _⟩ => namedSubtree c
termination_by n.size
decreasing_by exact Node.size_lt_of_mem_namedChildren ‹_›

/--
The state of the search for chains: the paths of the nodes that belong to a chain already found,
and the chains with their outermost nodes, in the order in which they are found.
-/
structure Discovery where
  claimed : Std.HashSet (List Nat) := {}
  found : Array (Node × CallChain) := #[]

namespace Discovery

/--
Whether a chain may begin at `n`: it is the outermost link of a chain and in no chain yet.
-/
def startsAt (d : Discovery) (g : Grammar) (n : Node) : Bool :=
  g.isChainRoot n.kind && !d.claimed.contains n.path && !n.parentKind?.any g.isLink

/--
Record a chain and rule out every other chain below its outermost node.
-/
def record (d : Discovery) (g : Grammar) (n : Node) (chain : CallChain) : Discovery where
  claimed :=
    ((namedSubtree n).filter (g.isChainRoot ·.kind)).foldl (·.insert ·.path) d.claimed
  found := d.found.push (n, chain)

end Discovery

/--
Look for a chain at one node.
-/
def discover (g : Grammar) (scope : Scope) (n : Node) : StateT Discovery CountM Unit := do
  if (← get).startsAt g n then
    if let some chain ← callChain g scope n then
      if chain.hasCall then
        modify (·.record g n chain)

/--
All chains below `n` that hold a call, each with its outermost node, in source order. A chain is
found at its outermost link only, and calls inside its arguments are part of it.
-/
def locatedCallChains (g : Grammar) (scope : Scope) (n : Node) :
    CountM (List (Node × CallChain)) := do
  let (_, d) ← (scope.walk n 0 fun n _ => do discover g scope n; return true).run {}
  return d.found.toList

def callChains (g : Grammar) (scope : Scope) (n : Node) : CountM (List CallChain) :=
  return (← locatedCallChains g scope n).map (·.2)

end Polyglot.Extract
