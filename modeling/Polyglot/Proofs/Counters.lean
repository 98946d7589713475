import Polyglot.Proofs.Counting

/-!
This module contains what the words of a record say about the exact counts. They keep the counts up
to multiples of their size, so they are exact as long as no count outgrows its word. Whether a
record is clean depends on the sum of the words, which has to fit into a word as well.
-/

namespace Polyglot.Fallbacks

variable (f g : Fallbacks)

/--
The number of fallbacks of all kinds.
-/
def total : Nat :=
  f.unknownArgs + f.opaqueReceivers + f.depthLimitedChains + f.depthLimitedArgs
    + f.skippedDeclarations + f.truncatedSubtrees

/--
Every count fits into a word.
-/
structure Fits : Prop where
  unknownArgs : f.unknownArgs < UInt32.size
  opaqueReceivers : f.opaqueReceivers < UInt32.size
  depthLimitedChains : f.depthLimitedChains < UInt32.size
  depthLimitedArgs : f.depthLimitedArgs < UInt32.size
  skippedDeclarations : f.skippedDeclarations < UInt32.size
  truncatedSubtrees : f.truncatedSubtrees < UInt32.size

theorem counters_add : (f + g).counters = f.counters + g.counters := by
  have hadd : f.counters + g.counters = f.counters.add g.counters := rfl
  rw [hadd, add_def]
  simp only [counters, add, FallbackCounters.add, Nat.toUInt32_eq, UInt32.ofNat_add]

theorem counters_counts (c : FallbackCounters) : c.counts.counters = c := by
  simp only [counters, FallbackCounters.counts, Nat.toUInt32_eq, UInt32.ofNat_toNat]

variable {f}

theorem toNat_toUInt32 {n : Nat} (h : n < UInt32.size) : n.toUInt32.toNat = n := by
  rw [Nat.toUInt32_eq, UInt32.toNat_ofNat']
  exact Nat.mod_eq_of_lt h

theorem total_counters : f.counters.total = f.total.toUInt32 := by
  simp only [counters, FallbackCounters.total, total, Nat.toUInt32_eq, UInt32.ofNat_add]

/--
A record is clean if nothing has fallen back, and otherwise only if the number of fallbacks is a
multiple of the size of a word.
-/
theorem isClean_counters_iff : f.counters.isClean ↔ UInt32.size ∣ f.total := by
  unfold FallbackCounters.isClean
  rw [beq_iff_eq, total_counters, ← UInt32.toNat_inj, Nat.toUInt32_eq, UInt32.toNat_ofNat',
    UInt32.toNat_zero]
  exact Nat.dvd_iff_mod_eq_zero.symm

theorem total_of_isClean (hclean : f.counters.isClean) (h : f.total < UInt32.size) :
    f.total = 0 :=
  Nat.eq_zero_of_dvd_of_lt (isClean_counters_iff.mp hclean) h

end Polyglot.Fallbacks
