import Polyglot.Proofs.Chains.Attempts
import Polyglot.Proofs.Limits.Basic

/-!
This module contains the extraction of chains under wider limits. If no limit is hit, nothing
changes. If only the walk over the tree may go deeper, chains are added and none is lost.
-/

namespace Polyglot.Extract

open CountM

variable {scope scope' : Scope}

theorem relaxes_argument (g : Grammar) (h : scope.limits.maxArgDepth ≤ scope'.limits.maxArgDepth)
    (n : Node) : (argument g scope n).Relaxes (argument g scope' n) := by
  obtain ⟨more, hmore⟩ := Nat.exists_eq_add_of_le h
  unfold argument
  rw [hmore, Nat.add_right_comm]
  apply rel_argumentAt congruence_relaxes additive_unknownArg.relaxes
  intro n
  exact relaxes_of_limitHits (additive_argumentAt g 0 n) Nat.one_ne_zero _

/--
The chain at a node depends on the limits for chains and arguments only.
-/
theorem callChain_congr (g : Grammar) (hfile : scope'.file = scope.file)
    (hchain : scope'.limits.maxChainDepth = scope.limits.maxChainDepth)
    (harg : scope'.limits.maxArgDepth = scope.limits.maxArgDepth) (n : Node) :
    callChain g scope' n = callChain g scope n := by
  have hargs : ∀ n, argument g scope' n = argument g scope n := by
    intro n
    rw [argument, argument, harg]
  have hwalk := rel_walkChain congruence_eq hargs rfl (k := 0) (fun _ _ => rfl)
    scope.limits.maxChainDepth n []
  rw [callChain_eq, callChain_eq, hchain, hwalk]
  simp only [chainOf?, hfile, Nat.add_zero]

section Deeper

variable (hchainAt : ∀ g n, chainAt? g scope' n = chainAt? g scope n)
  (hle : scope.limits.maxTreeDepth ≤ scope'.limits.maxTreeDepth)

include hchainAt hle

theorem sublist_attempts (g : Grammar) (n : Node) (depth : Nat) :
    (attempts g scope n depth).Sublist (attempts g scope' n depth) := by
  induction n using namedInduction generalizing depth with
  | step n ih =>
    have hbelow : (n.namedChildren.flatMap (attempts g scope · (depth + 1))).Sublist
        (n.namedChildren.flatMap (attempts g scope' · (depth + 1))) := by
      apply List.Sublist.flatMap_right
      intro c hc
      exact ih c hc (depth + 1)
    rw [attempts_eq, attempts_eq, hchainAt]
    by_cases hdepth : scope.limits.maxTreeDepth < depth
    · rw [if_pos hdepth]
      apply List.nil_sublist
    rw [if_neg hdepth]
    by_cases hdepth' : scope'.limits.maxTreeDepth < depth
    · omega
    rw [if_neg hdepth']
    split
    · split
      · apply List.Sublist.refl
      · exact hbelow.cons_cons n
    · exact hbelow

end Deeper

/--
A walk that goes deeper adds chains, and it keeps those found before.
-/
theorem sublist_callChains (g : Grammar) (hfile : scope'.file = scope.file)
    (hchain : scope'.limits.maxChainDepth = scope.limits.maxChainDepth)
    (harg : scope'.limits.maxArgDepth = scope.limits.maxArgDepth)
    (hle : scope.limits.maxTreeDepth ≤ scope'.limits.maxTreeDepth) (n : Node) (f f' : Fallbacks) :
    ((callChains g scope n).run f).1.Sublist ((callChains g scope' n).run f').1 := by
  have hchainAt : ∀ g n, chainAt? g scope' n = chainAt? g scope n := by
    intro g n
    rw [chainAt?, chainAt?, callChain_congr g hfile hchain harg]
  rw [run_callChains_attempts, run_callChains_attempts]
  apply List.Sublist.map
  simp only [chainsAt, hchainAt]
  exact (sublist_attempts hchainAt hle g n 0).filterMap _

end Polyglot.Extract
