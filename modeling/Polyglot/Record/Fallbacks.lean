/-!
This module contains the counts of what an extraction could not represent.
-/

namespace Polyglot

/--
How often an extraction fell back, by cause.
-/
structure Fallbacks where
  unknownArgs : Nat := 0
  opaqueReceivers : Nat := 0
  depthLimitedChains : Nat := 0
  depthLimitedArgs : Nat := 0
  skippedDeclarations : Nat := 0
  truncatedSubtrees : Nat := 0
deriving DecidableEq, Repr, Inhabited

namespace Fallbacks

def add (f g : Fallbacks) : Fallbacks where
  unknownArgs := f.unknownArgs + g.unknownArgs
  opaqueReceivers := f.opaqueReceivers + g.opaqueReceivers
  depthLimitedChains := f.depthLimitedChains + g.depthLimitedChains
  depthLimitedArgs := f.depthLimitedArgs + g.depthLimitedArgs
  skippedDeclarations := f.skippedDeclarations + g.skippedDeclarations
  truncatedSubtrees := f.truncatedSubtrees + g.truncatedSubtrees

instance : Add Fallbacks := ⟨add⟩

instance : Zero Fallbacks := ⟨{}⟩

end Fallbacks

/--
The counts as a record keeps them: words of 32 bits, which wrap around.
-/
structure FallbackCounters where
  unknownArgs : UInt32 := 0
  opaqueReceivers : UInt32 := 0
  depthLimitedChains : UInt32 := 0
  depthLimitedArgs : UInt32 := 0
  skippedDeclarations : UInt32 := 0
  truncatedSubtrees : UInt32 := 0
deriving DecidableEq, Repr, Inhabited

namespace FallbackCounters

def total (c : FallbackCounters) : UInt32 :=
  c.unknownArgs + c.opaqueReceivers + c.depthLimitedChains + c.depthLimitedArgs
    + c.skippedDeclarations + c.truncatedSubtrees

def isClean (c : FallbackCounters) : Bool := c.total == 0

def add (c d : FallbackCounters) : FallbackCounters where
  unknownArgs := c.unknownArgs + d.unknownArgs
  opaqueReceivers := c.opaqueReceivers + d.opaqueReceivers
  depthLimitedChains := c.depthLimitedChains + d.depthLimitedChains
  depthLimitedArgs := c.depthLimitedArgs + d.depthLimitedArgs
  skippedDeclarations := c.skippedDeclarations + d.skippedDeclarations
  truncatedSubtrees := c.truncatedSubtrees + d.truncatedSubtrees

instance : Add FallbackCounters := ⟨add⟩

instance : Zero FallbackCounters := ⟨{}⟩

/--
The numbers that the words stand for.
-/
def counts (c : FallbackCounters) : Fallbacks where
  unknownArgs := c.unknownArgs.toNat
  opaqueReceivers := c.opaqueReceivers.toNat
  depthLimitedChains := c.depthLimitedChains.toNat
  depthLimitedArgs := c.depthLimitedArgs.toNat
  skippedDeclarations := c.skippedDeclarations.toNat
  truncatedSubtrees := c.truncatedSubtrees.toNat

end FallbackCounters

/--
What a record keeps of the counts.
-/
def Fallbacks.counters (f : Fallbacks) : FallbackCounters where
  unknownArgs := f.unknownArgs.toUInt32
  opaqueReceivers := f.opaqueReceivers.toUInt32
  depthLimitedChains := f.depthLimitedChains.toUInt32
  depthLimitedArgs := f.depthLimitedArgs.toUInt32
  skippedDeclarations := f.skippedDeclarations.toUInt32
  truncatedSubtrees := f.truncatedSubtrees.toUInt32

end Polyglot
