import Polyglot.Proofs.Chains.Restarts
import Polyglot.Proofs.Counters

/-!
This module contains that no argument is lost in silence. Every unknown argument without a label is
counted, and the words of a record show it as long as the counts fit into them. Counts beyond that
wrap around: then a record can be clean although arguments were lost.
-/

namespace Polyglot

open Extract

namespace Facts

/--
Every unknown argument without a label is counted. The words of a record bound their number if both
counts of arguments fit, and a clean record has none of them if the sum of all counts fits.
Normalizing one argument counts nothing else, and it counts exactly the unknown arguments in its
result unless an object repeats a key.
-/
theorem unknown_arguments_counted (language : Language) (scope : Scope) (root : Node) :
    let facts := ofTree language scope root
    let kept := facts.fallbacks.counters
    facts.unlabelled ≤ facts.fallbacks.unknownArgs + facts.fallbacks.depthLimitedArgs ∧
    (facts.fallbacks.unknownArgs < UInt32.size → facts.fallbacks.depthLimitedArgs < UInt32.size →
      facts.unlabelled ≤ kept.unknownArgs.toNat + kept.depthLimitedArgs.toNat) ∧
    (facts.fallbacks.total < UInt32.size → kept.isClean →
      ∀ chain ∈ facts.callChains, chain.unlabelled = 0) ∧
    ∀ (n : Node) (f : Fallbacks),
      let arg := ((argument language.grammar scope n).run f).1
      let f' := ((argument language.grammar scope n).run f).2
      f' = { f with unknownArgs := f'.unknownArgs, depthLimitedArgs := f'.depthLimitedArgs } ∧
      ((∀ m ∈ inspected language.grammar (scope.limits.maxArgDepth + 1) n,
          (language.grammar.classifyArg m).keys.Nodup) →
        f'.unknownArgs + f'.depthLimitedArgs =
          f.unknownArgs + f.depthLimitedArgs + arg.unlabelled ∧
        f'.counters.unknownArgs + f'.counters.depthLimitedArgs =
          f.counters.unknownArgs + f.counters.depthLimitedArgs + arg.unlabelled.toUInt32) := by
  intro facts kept
  have hle : facts.unlabelled ≤ facts.fallbacks.lostArguments :=
    unlabelled_ofTree_le language scope root
  refine ⟨hle, ?_, ?_, ?_⟩
  · intro hunknown hdepth
    simp only [kept, Fallbacks.counters, Fallbacks.toNat_toUInt32 hunknown,
      Fallbacks.toNat_toUInt32 hdepth]
    exact hle
  · intro hfits hclean chain hchain
    have htotal := Fallbacks.total_of_isClean hclean hfits
    apply unlabelled_eq_zero_of_mem _ hchain
    unfold Fallbacks.lostArguments at hle
    unfold Fallbacks.total at htotal
    omega
  · intro n f
    obtain ⟨hadd, hcost⟩ := spendsIn_argument language.grammar scope n
    have hbalance := balance_argumentAt language.grammar (scope.limits.maxArgDepth + 1) n
    rw [hadd f]
    constructor
    · generalize (argument language.grammar scope n).cost = spent at hcost ⊢
      conv_lhs => rw [show spent = _ from hcost]
      rfl
    · intro hdistinct
      have hexact : (f + (argument language.grammar scope n).cost).lostArguments =
          f.lostArguments + (argument language.grammar scope n).value.unlabelled := by
        rw [Fallbacks.lostArguments_add, argument, ← hbalance.eq_of hdistinct]
      refine ⟨hexact, ?_⟩
      simp only [Fallbacks.counters, Nat.toUInt32_eq, ← UInt32.ofNat_add]
      exact congrArg UInt32.ofNat hexact

/--
The tree of an object `{...x, b: [y()]}`.
-/
def spreadAndCall : Tree :=
  .node ⟨"object", true, false, none, 0, 16⟩ [
    .node ⟨"spread_element", true, false, none, 1, 5⟩ [
      .node ⟨"...", false, false, none, 1, 4⟩ [],
      .node ⟨"identifier", true, false, none, 4, 5⟩ []],
    .node ⟨"pair", true, false, none, 7, 15⟩ [
      .node ⟨"property_identifier", true, false, some "key", 7, 8⟩ [],
      .node ⟨"array", true, false, some "value", 10, 15⟩ [
        .node ⟨"call_expression", true, false, none, 11, 14⟩ [
          .node ⟨"identifier", true, false, some "function", 11, 12⟩ [],
          .node ⟨"arguments", true, false, some "arguments", 12, 14⟩ []]]]]

theorem spreadAndCall_counted :
    let g := Language.typescript.grammar
    let scope : Scope := ⟨"a.ts", { maxArgDepth := 2 }⟩
    let n : Node := .root (.ofString "\x7b...x, b: [y()]\x7d") spreadAndCall
    let clean := ofTree .python ⟨"a.py", {}⟩ nestedFunctionsRoot
    let lossy := ofTree .rust ⟨"a.rs", { maxChainDepth := 2, maxTreeDepth := 16 }⟩ (Rust.tryFile 3)
    (∀ m ∈ inspected g 3 n, (g.classifyArg m).keys.Nodup) ∧
    ((argument g scope n).run 0).1.unlabelled = 2 ∧
    ((argument g scope n).run 0).2.lostArguments = 2 ∧
    clean.fallbacks.total < UInt32.size ∧ clean.fallbacks.counters.isClean ∧
    clean.callChains.map CallChain.signature = ["g"] ∧
    (∀ chain ∈ clean.callChains, chain.unlabelled = 0) ∧
    lossy.unlabelled = 1 ∧ lossy.fallbacks = { unknownArgs := 4, depthLimitedChains := 3 } ∧
    1 ≤ lossy.fallbacks.counters.unknownArgs.toNat +
      lossy.fallbacks.counters.depthLimitedArgs.toNat := by
  intro g scope n clean lossy
  have hdistinct : ∀ m ∈ inspected g 3 n, (g.classifyArg m).keys.Nodup := by
    decide +kernel
  have hunlabelled : ((argument g scope n).run 0).1.unlabelled = 2 := by
    decide +kernel
  have htotal : clean.fallbacks.total = 0 := by
    simp only [clean, fallbacks_ofTree]
    decide +kernel
  have hfits : clean.fallbacks.total < UInt32.size := by
    rw [htotal]
    decide
  have hclean : clean.fallbacks.counters.isClean := by
    rw [Fallbacks.isClean_counters_iff, htotal]
    exact Nat.dvd_zero _
  have hfound : clean.callChains.map CallChain.signature = ["g"] := by
    simp only [clean, callChains_ofTree]
    decide +kernel
  obtain ⟨hcounts, hlossy⟩ : lossy.fallbacks = { unknownArgs := 4, depthLimitedChains := 3 } ∧
      lossy.unlabelled = 1 :=
    ofTree_tryFile _ 1 3 rfl (by decide) (by decide) (by decide)
  refine ⟨hdistinct, hunlabelled, ?_, hfits, hclean, hfound, ?_, hlossy, hcounts, ?_⟩
  · obtain ⟨hcounted, -⟩ := ((unknown_arguments_counted .typescript scope n).2.2.2 n 0).2 hdistinct
    rw [hunlabelled] at hcounted
    exact hcounted
  · exact (unknown_arguments_counted .python ⟨"a.py", {}⟩ nestedFunctionsRoot).2.2.1 hfits hclean
  · have hbound : lossy.fallbacks.unknownArgs < UInt32.size →
        lossy.fallbacks.depthLimitedArgs < UInt32.size → lossy.unlabelled ≤ _ :=
      (unknown_arguments_counted .rust ⟨"a.rs", { maxChainDepth := 2, maxTreeDepth := 16 }⟩
        (Rust.tryFile 3)).2.1
    rw [hlossy] at hbound
    apply hbound
    · rw [hcounts]
      decide
    · rw [hcounts]
      decide

/--
The counts wrap around on two files of one long chain each. In the one file the words for arguments
are zero, and in the other file the record as a whole is clean.
-/
theorem wrapped_counts_lose_arguments :
    let wide := ofTree .rust ⟨"a.rs", { maxChainDepth := 131072, maxTreeDepth := 1000000 }⟩
      (Rust.tryFile 131070)
    let long := ofTree .rust ⟨"a.rs", { maxChainDepth := 1280, maxTreeDepth := 30000000 }⟩
      (Rust.tryFile 6701055)
    (wide.unlabelled = 65536 ∧ wide.fallbacks.counters.unknownArgs = 0 ∧
      wide.fallbacks.counters.depthLimitedArgs = 0) ∧
    long.unlabelled = 640 ∧ long.fallbacks.counters =
      { unknownArgs := 4288266880, depthLimitedChains := 6700416 } ∧
    long.fallbacks.counters.isClean := by
  intro wide long
  obtain ⟨hwide, hwideLeft⟩ := ofTree_tryFile
    ⟨"a.rs", { maxChainDepth := 131072, maxTreeDepth := 1000000 }⟩ 65536 131070
    (by decide) (by decide) (by decide) (by decide)
  obtain ⟨hlong, hlongLeft⟩ := ofTree_tryFile
    ⟨"a.rs", { maxChainDepth := 1280, maxTreeDepth := 30000000 }⟩ 640 6701055
    (by decide) (by decide) (by decide) (by decide)
  refine ⟨⟨hwideLeft, ?_, ?_⟩, hlongLeft, ?_, ?_⟩
  · rw [hwide]
    decide
  · rw [hwide]
    decide
  · rw [hlong]
    decide
  · rw [hlong]
    decide

end Facts

end Polyglot
