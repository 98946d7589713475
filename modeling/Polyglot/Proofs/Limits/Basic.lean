import Polyglot.Proofs.Tree.Walk

/-!
This module contains the comparison of a computation with the same computation under wider limits.
They agree unless the first one hits a limit, and this is seen from the fallbacks that it counts.
-/

namespace Polyglot

/--
Limits are ordered one by one.
-/
instance : LE Limits where
  le c c' := c.maxChainDepth ≤ c'.maxChainDepth ∧ c.maxArgDepth ≤ c'.maxArgDepth ∧
    c.maxTreeDepth ≤ c'.maxTreeDepth ∧ c.maxScopeDepth ≤ c'.maxScopeDepth

theorem Limits.le_def {c c' : Limits} : c ≤ c' ↔
    c.maxChainDepth ≤ c'.maxChainDepth ∧ c.maxArgDepth ≤ c'.maxArgDepth ∧
      c.maxTreeDepth ≤ c'.maxTreeDepth ∧ c.maxScopeDepth ≤ c'.maxScopeDepth :=
  Iff.rfl

namespace Fallbacks

/--
How often a limit was hit.
-/
def limitHits (f : Fallbacks) : Nat :=
  f.depthLimitedChains + f.depthLimitedArgs + f.truncatedSubtrees

theorem limitHits_add_eq_zero {f g : Fallbacks} :
    (f + g).limitHits = 0 ↔ f.limitHits = 0 ∧ g.limitHits = 0 := by
  simp only [limitHits, add_def, add]
  omega

end Fallbacks

namespace CountM

/--
`x` is additive, and `y` is the same computation unless `x` hits a limit.
-/
structure Relaxes (x y : CountM α) : Prop where
  additive : x.Additive
  eq_of_limitHits : x.cost.limitHits = 0 → y = x

theorem Additive.relaxes {x : CountM α} (h : x.Additive) : x.Relaxes x :=
  ⟨h, fun _ => rfl⟩

theorem relaxes_of_limitHits {x : CountM α} (h : x.Additive) (hhit : x.cost.limitHits ≠ 0)
    (y : CountM α) : x.Relaxes y :=
  ⟨h, fun hno => absurd hno hhit⟩

theorem relaxes_bind {x y : CountM α} {k l : α → CountM β} (hx : x.Relaxes y)
    (hk : ∀ a, (k a).Relaxes (l a)) : (x >>= k).Relaxes (y >>= l) := by
  have hadd := fun a => (hk a).additive
  refine ⟨additive_bind hx.additive hadd, ?_⟩
  intro hno
  rw [cost_bind hx.additive hadd, Fallbacks.limitHits_add_eq_zero] at hno
  rw [hx.eq_of_limitHits hno.1]
  -- Only the continuation at the value of `x` is run.
  apply StateT.ext
  intro f
  rw [StateT.run_bind, StateT.run_bind, hx.additive f]
  change (l x.value).run _ = (k x.value).run _
  rw [(hk x.value).eq_of_limitHits hno.2]

theorem congruence_relaxes : Congruence Relaxes where
  pure_rel a := (additive_pure a).relaxes
  bind_rel := relaxes_bind

section State

variable {σ α β : Type}

end State

end CountM

namespace Scope

open CountM

variable {scope scope' : Scope} (hle : scope.limits.maxTreeDepth ≤ scope'.limits.maxTreeDepth)

include hle

end Scope

end Polyglot
