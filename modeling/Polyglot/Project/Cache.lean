import Polyglot.Record.File

/-!
This module contains the cache of file records. An entry belongs to a path and a content hash, so
that a changed file never finds the record of its old content. Spellings of a path that have the
same components share their entries.
-/

namespace Polyglot

structure Cache.Key where
  path : List Component
  contentHash : UInt64
deriving DecidableEq, Repr

def Cache.Key.ofPath (path : String) (contentHash : UInt64) : Key :=
  ⟨Path.components path, contentHash⟩

/--
A cache. With a capacity of zero it is off and stays empty.
-/
structure Cache where
  capacity : Nat := 10000
  entries : List (Cache.Key × FileRecord) := []

namespace Cache

def isEnabled (c : Cache) : Bool := c.capacity != 0

def count (c : Cache) : Nat := c.entries.length

def find? (c : Cache) (key : Key) : Option FileRecord :=
  (c.entries.find? (·.1 == key)).map (·.2)

def erase (c : Cache) (key : Key) : Cache :=
  { c with entries := c.entries.filter (·.1 != key) }

/--
Store a record in place of an older one with the same key.
-/
def insert (c : Cache) (key : Key) (record : FileRecord) : Cache :=
  if c.isEnabled then { c with entries := (key, record) :: (c.erase key).entries } else c

def clear (c : Cache) : Cache := { c with entries := [] }

end Cache

end Polyglot
