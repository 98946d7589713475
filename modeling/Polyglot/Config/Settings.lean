import Polyglot.Config.Limits

/-!
This module contains the settings of the program.
-/

namespace Polyglot

structure NormalizerSettings extends Limits where
  /-- Warn of files that needed a fallback. -/
  strict : Bool := false
deriving DecidableEq, Repr, Inhabited

/--
How files are found and kept. What is not set has a default, which the operations below give.
-/
structure ProviderSettings where
  /-- How many files the cache holds; zero turns it off. -/
  cacheCapacity : Option Nat := none
  /-- The size in bytes beyond which a file is left out. -/
  maxFileSize : Option Nat := none
  /-- The number of threads; zero leaves the choice to the machine. -/
  threads : Option Nat := none
  /-- The names of the enabled languages; none enables all. -/
  languages : List String := []
  /-- Further patterns of files to leave out. -/
  extraIgnore : List String := []
  followSymlinks : Option Bool := none
deriving DecidableEq, Repr, Inhabited

namespace ProviderSettings

def effectiveCacheCapacity (s : ProviderSettings) : Nat := s.cacheCapacity.getD 10000

def effectiveMaxFileSize (s : ProviderSettings) : Nat := s.maxFileSize.getD 1048576

def effectiveThreads (s : ProviderSettings) : Nat := s.threads.getD 0

def effectiveFollowSymlinks (s : ProviderSettings) : Bool := s.followSymlinks.getD false

end ProviderSettings

structure Settings where
  normalizer : NormalizerSettings := {}
  provider : ProviderSettings := {}
deriving DecidableEq, Repr, Inhabited

end Polyglot
