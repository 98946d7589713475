import Polyglot.Record.Argument

/-!
This module contains call chains: chained expressions such as `db.users.find(id).await?`, as a
receiver and the links applied to it.
-/

namespace Polyglot

/--
One link of a chain: a call, a field access, or a suspension mark such as `await` or `?`.
-/
structure Segment where
  name : String
  isCall : Bool
  arguments : List Argument
  position : Position
deriving Repr, Inhabited

def Segment.call (name : String) (arguments : List Argument) (position : Position) : Segment :=
  { name, isCall := true, arguments, position }

def Segment.access (name : String) (position : Position) : Segment :=
  { name, isCall := false, arguments := [], position }

/--
A chain. The receiver is empty if the chain begins with a bare call; the segments stand in the
order in which they are written.
-/
structure CallChain where
  receiver : String
  segments : List Segment
  raw : String
  file : String
  start : Position
  stop : Position
deriving Repr, Inhabited

namespace CallChain

def hasCall (chain : CallChain) : Bool := chain.segments.any (·.isCall)

/--
The names of the segments, joined by dots.
-/
def signature (chain : CallChain) : String :=
  String.intercalate "." (chain.segments.map (·.name))

end CallChain

end Polyglot
