import Mathlib.Algebra.Order.BigOperators.Group.List
import Mathlib.Algebra.Order.Ring.Nat
import Polyglot.Proofs.Limits

/-!
This module contains the balance of unknown arguments. Whatever an argument leaves unknown is
counted, either as an unknown argument or as one beyond the depth limit, and nothing else is counted
there. A record can hold fewer unknown arguments than were counted: an entry of an object replaces
an earlier one with the same key, and chains without a call are dropped.
-/

namespace Polyglot

mutual

/--
The number of unknown arguments without a label in an argument, itself and nested ones included.
-/
def ArgumentKind.unlabelled : ArgumentKind → Nat
  | .object properties => ArgumentKind.unlabelledProperties properties
  | .array elements => ArgumentKind.unlabelledElements elements
  | .unknown none => 1
  | _ => 0

def ArgumentKind.unlabelledProperties : List (String × Argument) → Nat
  | [] => 0
  | (_, ⟨kind, _, _⟩) :: rest => kind.unlabelled + unlabelledProperties rest

def ArgumentKind.unlabelledElements : List Argument → Nat
  | [] => 0
  | ⟨kind, _, _⟩ :: rest => kind.unlabelled + unlabelledElements rest

end

def Located.unlabelled (a : Argument) : Nat := a.kind.unlabelled

theorem ArgumentKind.unlabelledElements_eq (elements : List Argument) :
    unlabelledElements elements = (elements.map Located.unlabelled).sum := by
  induction elements with
  | nil => rw [unlabelledElements, List.map_nil, List.sum_nil]
  | cons a rest ih => rw [unlabelledElements, ih, List.map_cons, List.sum_cons, Located.unlabelled]

theorem ArgumentKind.unlabelledProperties_cons (p : String × Argument)
    (rest : List (String × Argument)) :
    unlabelledProperties (p :: rest) = p.2.unlabelled + unlabelledProperties rest := by
  rw [unlabelledProperties, Located.unlabelled]

def Segment.unlabelled (s : Segment) : Nat := (s.arguments.map Located.unlabelled).sum

def CallChain.unlabelled (c : CallChain) : Nat := (c.segments.map Segment.unlabelled).sum

namespace Fallbacks

/--
The arguments of which nothing is known, whatever the reason.
-/
def lostArguments (f : Fallbacks) : Nat := f.unknownArgs + f.depthLimitedArgs

@[simp]
theorem lostArguments_zero : (0 : Fallbacks).lostArguments = 0 := rfl

@[simp]
theorem lostArguments_add (f g : Fallbacks) :
    (f + g).lostArguments = f.lostArguments + g.lostArguments := by
  simp only [lostArguments, add_def, add]
  omega

end Fallbacks

section Properties

open ArgumentKind

variable (key : String) (value : Argument) (properties : List (String × Argument))

theorem unlabelled_insertProperty_le :
    unlabelledProperties (insertProperty key value properties) ≤
      unlabelledProperties properties + value.unlabelled := by
  induction properties with
  | nil => simp [insertProperty, unlabelledProperties_cons, unlabelledProperties]
  | cons p rest ih =>
    obtain ⟨k, v⟩ := p
    rw [insertProperty]
    split
    · simp only [unlabelledProperties_cons]
      omega
    · split
      · simp only [unlabelledProperties_cons]
        omega
      · simp only [unlabelledProperties_cons]
        omega

variable {key properties}

theorem unlabelled_insertProperty (h : key ∉ properties.map (·.1)) :
    unlabelledProperties (insertProperty key value properties) =
      unlabelledProperties properties + value.unlabelled := by
  induction properties with
  | nil => simp [insertProperty, unlabelledProperties_cons, unlabelledProperties]
  | cons p rest ih =>
    obtain ⟨k, v⟩ := p
    rw [List.map_cons, List.mem_cons, not_or] at h
    rw [insertProperty, if_neg h.1]
    split
    · simp only [unlabelledProperties_cons]
      omega
    · simp only [unlabelledProperties_cons, ih h.2]
      omega

theorem mem_keys_insertProperty {k : String} :
    k ∈ (insertProperty key value properties).map (·.1) ↔ k = key ∨ k ∈ properties.map (·.1) := by
  induction properties with
  | nil => simp [insertProperty]
  | cons p rest ih =>
    obtain ⟨k', v⟩ := p
    rw [insertProperty]
    split
    · simp
    · split
      · rename_i heq
        simp [heq]
      · rw [List.map_cons, List.mem_cons, ih, List.map_cons, List.mem_cons]
        tauto

end Properties

/--
The key under which an entry of an object is kept.
-/
def ObjectEntry.key : ObjectEntry → String
  | pair key _ => key
  | shorthand name _ => name
  | unclassified node => node.text

def ObjectEntry.value? : ObjectEntry → Option Node
  | pair _ value => some value
  | _ => none

namespace ArgShape

/--
The nodes inside an argument that are normalized in their turn.
-/
def parts : ArgShape → List Node
  | object entries => entries.filterMap ObjectEntry.value?
  | array items => items
  | keyword _ value => [value]
  | wrapped inner => [inner]
  | _ => []

/--
The keys of the entries of an object.
-/
def keys : ArgShape → List String
  | object entries => entries.map ObjectEntry.key
  | _ => []

end ArgShape

/--
What a record holds is at most what was counted, and exactly that on a condition.
-/
structure Balance (exact : Prop) (held counted : Nat) : Prop where
  le : held ≤ counted
  eq_of : exact → held = counted

namespace Balance

variable {P Q : Prop} {a b c d : Nat}

theorem refl (P : Prop) (a : Nat) : Balance P a a := ⟨Nat.le_refl a, fun _ => rfl⟩

theorem imp (h : Balance P a b) (hQ : Q → P) : Balance Q a b := ⟨h.le, h.eq_of ∘ hQ⟩

theorem add (h : Balance P a b) (h' : Balance P c d) : Balance P (a + c) (b + d) :=
  ⟨Nat.add_le_add h.le h'.le, fun hP => congrArg₂ (· + ·) (h.eq_of hP) (h'.eq_of hP)⟩

end Balance

namespace Extract

open CountM ArgumentKind

/--
The nodes that the normalization of an argument looks at, if the argument may nest the given number
of levels.
-/
def inspected (g : Grammar) : (levels : Nat) → Node → List Node
  | 0, _ => []
  | levels + 1, n => n :: (g.classifyArg n).parts.flatMap (inspected g levels)

section Inner

variable {inner : Node → CountM Argument} (hinner : ∀ n, (inner n).Additive)

include hinner

theorem value_property (entry : ObjectEntry) : (property inner entry).value.1 = entry.key := by
  cases entry with
  | pair key value => exact congrArg Prod.fst (value_bind_pure (hinner value) _)
  | shorthand name node => rfl
  | unclassified node => rfl

theorem value_addProperty (properties : List (String × Argument)) (entry : ObjectEntry) :
    (addProperty inner properties entry).value =
      insertProperty entry.key (property inner entry).value.2 properties := by
  unfold addProperty
  rw [value_bind_pure (additive_property hinner entry), value_property hinner]

theorem cost_addProperty (properties : List (String × Argument)) (entry : ObjectEntry) :
    (addProperty inner properties entry).cost = (property inner entry).cost := by
  unfold addProperty
  rw [cost_bind (additive_property hinner entry) fun _ => additive_pure _, cost_pure, add_zero]

variable {P : Prop}

theorem balance_property (entry : ObjectEntry)
    (h : ∀ n ∈ entry.value?, Balance P (inner n).value.unlabelled (inner n).cost.lostArguments) :
    Balance P (property inner entry).value.2.unlabelled
      (property inner entry).cost.lostArguments := by
  cases entry with
  | pair key value =>
    have hvalue := h value rfl
    simp only [property]
    rw [value_bind_pure (hinner value), cost_bind (hinner value) fun _ => additive_pure _,
      cost_pure, add_zero]
    exact hvalue
  | shorthand name node => exact Balance.refl P 0
  | unclassified node => exact Balance.refl P 1

/--
The entries of an object are added one by one. Nothing is replaced if their keys are different from
each other and from those that are there already.
-/
theorem balance_foldlM_addProperty {entries : List ObjectEntry}
    (h : ∀ n ∈ entries.filterMap ObjectEntry.value?,
      Balance P (inner n).value.unlabelled (inner n).cost.lostArguments)
    (properties : List (String × Argument))
    (hkeys : P → (entries.map ObjectEntry.key).Nodup ∧
      ∀ key ∈ entries.map ObjectEntry.key, key ∉ properties.map (·.1)) :
    Balance P (unlabelledProperties (entries.foldlM (addProperty inner) properties).value)
      (unlabelledProperties properties +
        (entries.foldlM (addProperty inner) properties).cost.lostArguments) := by
  induction entries generalizing properties with
  | nil => exact Balance.refl P _
  | cons entry entries ih =>
    have hadd := additive_addProperty hinner
    have hentry : Balance P (property inner entry).value.2.unlabelled
        (property inner entry).cost.lostArguments := by
      apply balance_property hinner
      intro n hn
      exact h n (List.mem_filterMap.2 ⟨entry, List.mem_cons_self, hn⟩)
    rw [List.foldlM_cons, value_bind (hadd properties entry) (additive_foldlM hadd · entries),
      cost_bind (hadd properties entry) (additive_foldlM hadd · entries),
      value_addProperty hinner, cost_addProperty hinner, Fallbacks.lostArguments_add]
    have hrest := ih (fun n hn => h n ?_)
      (insertProperty entry.key (property inner entry).value.2 properties) ?_
    · have hle := unlabelled_insertProperty_le entry.key (property inner entry).value.2 properties
      constructor
      · have := hrest.le
        have := hentry.le
        omega
      · intro hP
        have hfresh := (hkeys hP).2 entry.key List.mem_cons_self
        rw [hrest.eq_of hP, unlabelled_insertProperty _ hfresh, hentry.eq_of hP]
        omega
    · obtain ⟨e, he, hn⟩ := List.mem_filterMap.1 hn
      exact List.mem_filterMap.2 ⟨e, List.mem_cons_of_mem _ he, hn⟩
    · intro hP
      obtain ⟨hnodup, hfresh⟩ := hkeys hP
      rw [List.map_cons, List.nodup_cons] at hnodup
      refine ⟨hnodup.2, ?_⟩
      intro key hkey
      rw [mem_keys_insertProperty, not_or]
      refine ⟨?_, hfresh key (List.mem_cons_of_mem _ hkey)⟩
      rintro rfl
      exact hnodup.1 hkey

theorem balance_mapM {items : List Node}
    (h : ∀ n ∈ items, Balance P (inner n).value.unlabelled (inner n).cost.lostArguments) :
    Balance P ((items.mapM inner).value.map Located.unlabelled).sum
      (items.mapM inner).cost.lostArguments := by
  induction items with
  | nil => exact Balance.refl P 0
  | cons n ns ih =>
    rw [List.forall_mem_cons] at h
    have htail := additive_mapM hinner ns
    rw [List.mapM_cons, value_bind (hinner n) fun _ => additive_bind_pure htail _,
      value_bind_pure htail, cost_bind (hinner n) fun _ => additive_bind_pure htail _,
      cost_bind htail fun _ => additive_pure _, cost_pure, add_zero, List.map_cons, List.sum_cons,
      Fallbacks.lostArguments_add]
    exact h.1.add (ih h.2)

theorem balance_kindOfShape (shape : ArgShape) (hkeys : P → shape.keys.Nodup)
    (h : ∀ n ∈ shape.parts,
      Balance P (inner n).value.unlabelled (inner n).cost.lostArguments) :
    Balance P (kindOfShape inner shape).value.unlabelled
      (kindOfShape inner shape).cost.lostArguments := by
  cases shape with
  | number literal =>
    rw [kindOfShape]
    split
    · exact Balance.refl P 0
    · exact Balance.refl P 1
  | object entries =>
    have hfold := balance_foldlM_addProperty hinner h [] (fun hP => ⟨hkeys hP, by simp⟩)
    have hadd := additive_foldlM (additive_addProperty hinner) [] entries
    rw [kindOfShape, value_bind_pure hadd, cost_bind hadd fun _ => additive_pure _, cost_pure,
      add_zero]
    simpa only [unlabelled, unlabelledProperties, Nat.zero_add] using hfold
  | array items =>
    have hadd := additive_mapM hinner items
    rw [kindOfShape, value_bind_pure hadd, cost_bind hadd fun _ => additive_pure _, cost_pure,
      add_zero, unlabelled, unlabelledElements_eq]
    exact balance_mapM hinner h
  | keyword name value =>
    have hvalue := h value List.mem_cons_self
    rw [kindOfShape, value_bind_pure (hinner value),
      cost_bind (hinner value) fun _ => additive_pure _, cost_pure, add_zero, unlabelled,
      unlabelledProperties_cons, unlabelledProperties, Nat.add_zero]
    exact hvalue
  | wrapped node =>
    have hnode := h node List.mem_cons_self
    rw [kindOfShape, value_bind_pure (hinner node),
      cost_bind (hinner node) fun _ => additive_pure _, cost_pure, add_zero]
    exact hnode
  | unclassified => exact Balance.refl P 1
  | _ => exact Balance.refl P 0

end Inner

theorem balance_argumentAt (g : Grammar) (levels : Nat) (n : Node) :
    Balance (∀ m ∈ inspected g levels n, (g.classifyArg m).keys.Nodup)
      (argumentAt g levels n).value.unlabelled
      (argumentAt g levels n).cost.lostArguments := by
  induction levels generalizing n with
  | zero => exact Balance.refl _ 1
  | succ levels ih =>
    have hinner := additive_argumentAt g levels
    have hkind := additive_kindOfShape hinner (g.classifyArg n)
    rw [argumentAt_succ, value_bind_pure hkind, cost_bind hkind fun _ => additive_pure _,
      cost_pure, add_zero]
    apply balance_kindOfShape hinner
    · intro hdistinct
      exact hdistinct n List.mem_cons_self
    · intro part hpart
      apply (ih part).imp
      intro hdistinct m hm
      exact hdistinct m (List.mem_cons_of_mem _ (List.mem_flatMap.2 ⟨part, hpart, hm⟩))

/--
The fallbacks that are lost arguments only.
-/
def onlyLostArguments : AddSubmonoid Fallbacks where
  carrier := { f | f = { unknownArgs := f.unknownArgs, depthLimitedArgs := f.depthLimitedArgs } }
  zero_mem' := rfl
  add_mem' := by
    intro f f' (hf : f = _) (hf' : f' = _)
    rw [hf, hf']
    rfl

theorem spendsIn_argument (g : Grammar) (scope : Scope) (n : Node) :
    (argument g scope n).SpendsIn onlyLostArguments := by
  apply rel_argumentAt (congruence_spendsIn onlyLostArguments) ⟨additive_unknownArg, rfl⟩ (k := 0)
  intro n
  exact ⟨additive_argumentAt g 0 n, rfl⟩

section Chains

variable (g : Grammar) (scope : Scope)

theorem unlabelled_callArguments_le (list : Option Node) :
    ((callArguments g scope list).value.map Located.unlabelled).sum ≤
      (callArguments g scope list).cost.lostArguments := by
  cases list with
  | none => exact Nat.le_refl 0
  | some list =>
    have h : ∀ n ∈ g.argumentNodes list, Balance False (argument g scope n).value.unlabelled
        (argument g scope n).cost.lostArguments := by
      intro n _
      exact (balance_argumentAt g _ n).imp False.elim
    exact (balance_mapM (additive_argument g scope) h).le

theorem unlabelled_segmentAt_le (n : Node) :
    ((segmentAt g scope n).value.toList.map Segment.unlabelled).sum ≤
      (segmentAt g scope n).cost.lostArguments := by
  have hcall (list : Option Node) (k : List Argument → Segment)
      (hk : ∀ args, (k args).arguments = args) :
      ((do return some (k (← callArguments g scope list)) :
          CountM (Option Segment)).value.toList.map Segment.unlabelled).sum ≤
        (do return some (k (← callArguments g scope list)) :
          CountM (Option Segment)).cost.lostArguments := by
    have hadd := additive_callArguments g scope list
    rw [value_bind_pure hadd, cost_bind hadd fun _ => additive_pure _, cost_pure, add_zero]
    simpa [Segment.unlabelled, hk] using unlabelled_callArguments_le g scope list
  unfold segmentAt
  cases g.classifyChain n with
  | methodCall name list receiver => exact hcall list _ (fun _ => rfl)
  | freeCall name list => exact hcall list _ (fun _ => rfl)
  | pathCall path name list => exact hcall list _ (fun _ => rfl)
  | invoke callee list => exact hcall list _ (fun _ => rfl)
  | _ => exact Nat.le_refl 0

theorem unlabelled_walkChain_le (steps : Nat) (n : Node) (segments : List Segment)
    {found : String × List Segment}
    (h : (walkChain g scope steps n segments).value = some found) :
    (found.2.map Segment.unlabelled).sum ≤ (segments.map Segment.unlabelled).sum +
      (walkChain g scope steps n segments).cost.lostArguments := by
  induction steps generalizing n segments with
  | zero => cases h
  | succ steps ih =>
    have hsegment := unlabelled_segmentAt_le g scope n
    cases hnext : (g.classifyChain n).next? with
    | none =>
      rw [value_walkChain_of_end scope steps segments hnext] at h
      rw [cost_walkChain_of_end scope steps segments hnext, ← Option.some.inj h, List.map_append,
        List.sum_append]
      omega
    | some m =>
      rw [value_walkChain_of_next scope steps segments hnext] at h
      have hrest := ih m _ h
      rw [List.map_append, List.sum_append] at hrest
      rw [cost_walkChain_of_next scope steps segments hnext, Fallbacks.lostArguments_add]
      omega

theorem unlabelled_callChain_le (n : Node) {chain : CallChain}
    (h : (callChain g scope n).value = some chain) :
    chain.unlabelled ≤ (callChain g scope n).cost.lostArguments := by
  have hadd := additive_walkChain g scope scope.limits.maxChainDepth n []
  rw [callChain_eq, value_bind_pure hadd, Option.bind_eq_some_iff] at h
  obtain ⟨found, hfound, hchain⟩ := h
  rw [callChain_eq, cost_bind hadd fun _ => additive_pure _, cost_pure, add_zero]
  have hle := unlabelled_walkChain_le g scope _ n [] hfound
  unfold chainOf? at hchain
  split at hchain
  · cases hchain
  · rw [← Option.some.inj hchain]
    simpa [CallChain.unlabelled] using hle

/--
The search counts at every node at which it tries to find a chain, also where it finds none.
-/
theorem unlabelled_chainsAt_le (ns : List Node) :
    ((chainsAt g scope ns).map (·.2.unlabelled)).sum ≤ (costAt g scope ns).lostArguments := by
  induction ns with
  | nil => exact Nat.le_refl 0
  | cons n ns ih =>
    unfold chainsAt costAt at *
    rw [List.map_cons, List.sum_cons, Fallbacks.lostArguments_add]
    cases hchain : chainAt? g scope n with
    | none =>
      rw [List.filterMap_cons_none (by rw [hchain, Option.map_none])]
      omega
    | some chain =>
      have hle := unlabelled_callChain_le g scope n (Option.eq_some_of_filter_eq_some hchain)
      rw [List.filterMap_cons_some (by rw [hchain, Option.map_some]), List.map_cons, List.sum_cons]
      exact Nat.add_le_add hle ih

end Chains

end Extract

namespace Facts

open Extract

/--
The number of unknown arguments without a label in all call chains.
-/
def unlabelled (facts : Facts) : Nat := (facts.callChains.map CallChain.unlabelled).sum

theorem unlabelled_ofTree_le (language : Language) (scope : Scope) (root : Node) :
    (ofTree language scope root).unlabelled ≤
      (ofTree language scope root).fallbacks.lostArguments := by
  have hle := unlabelled_chainsAt_le language.grammar scope
    (attempts language.grammar scope root 0)
  rw [unlabelled, callChains_ofTree, fallbacks_ofTree, List.map_map, Function.comp_def,
    Fallbacks.lostArguments_add, Fallbacks.lostArguments_add]
  omega

theorem unlabelled_eq_zero_of_mem {facts : Facts} (h : facts.unlabelled = 0) {chain : CallChain}
    (hchain : chain ∈ facts.callChains) : chain.unlabelled = 0 := by
  have hle := List.le_sum_of_mem (List.mem_map_of_mem (f := CallChain.unlabelled) hchain)
  unfold unlabelled at h
  omega

end Facts

end Polyglot
