import Mathlib.Algebra.BigOperators.Group.List.Basic
import Mathlib.Algebra.Group.Submonoid.Defs
import Polyglot.Extract.Scope

/-!
This module contains the theory of computations that count fallbacks. All extractions are additive:
what they return does not depend on the counts so far, and they only add to these counts. An
additive computation is therefore known by its value and its cost.
-/

namespace Polyglot

namespace Fallbacks

theorem add_def (f g : Fallbacks) : f + g = f.add g := rfl

theorem zero_def : (0 : Fallbacks) = {} := rfl

instance : AddCommMonoid Fallbacks where
  add_assoc f g h := by
    simp only [add_def, add, Nat.add_assoc]
  zero_add f := by
    simp [add_def, add, zero_def]
  add_zero f := by
    simp [add_def, add, zero_def]
  add_comm f g := by
    simp only [add_def, add, Nat.add_comm]
  nsmul := nsmulRec

theorem depthLimitedChains_add (f g : Fallbacks) :
    (f + g).depthLimitedChains = f.depthLimitedChains + g.depthLimitedChains := rfl

end Fallbacks

namespace CountM

/--
What a computation returns when nothing has been counted yet.
-/
def value (x : CountM α) : α := (x.run 0).1

/--
What a computation counts.
-/
def cost (x : CountM α) : Fallbacks := (x.run 0).2

def Additive (x : CountM α) : Prop :=
  ∀ f, x.run f = (x.value, f + x.cost)

theorem additive_of_run {x : CountM α} {a : α} {d : Fallbacks} (h : ∀ f, x.run f = (a, f + d)) :
    x.Additive := by
  intro f
  have h0 := h 0
  rw [zero_add] at h0
  rw [h f, value, cost, h0]

theorem value_of_run {x : CountM α} {a : α} {d : Fallbacks} (h : ∀ f, x.run f = (a, f + d)) :
    x.value = a := by
  rw [value, h 0]

theorem cost_of_run {x : CountM α} {a : α} {d : Fallbacks} (h : ∀ f, x.run f = (a, f + d)) :
    x.cost = d := by
  rw [cost, h 0, zero_add]

theorem run_pure_eq (a : α) (f : Fallbacks) : (pure a : CountM α).run f = (a, f + 0) := by
  rw [add_zero]
  rfl

theorem additive_pure (a : α) : (pure a : CountM α).Additive := additive_of_run (run_pure_eq a)

@[simp]
theorem value_pure (a : α) : (pure a : CountM α).value = a := rfl

@[simp]
theorem cost_pure (a : α) : (pure a : CountM α).cost = 0 := rfl

theorem additive_unknownArg : unknownArg.Additive :=
  additive_of_run (d := { unknownArgs := 1 }) fun _ => rfl

theorem additive_opaqueReceiver : opaqueReceiver.Additive :=
  additive_of_run (d := { opaqueReceivers := 1 }) fun _ => rfl

theorem additive_depthLimitedChain : depthLimitedChain.Additive :=
  additive_of_run (d := { depthLimitedChains := 1 }) fun _ => rfl

theorem additive_depthLimitedArg : depthLimitedArg.Additive :=
  additive_of_run (d := { depthLimitedArgs := 1 }) fun _ => rfl

section Bind

variable {x : CountM α} {k : α → CountM β}

theorem run_bind_eq (hx : x.Additive) (hk : (k x.value).Additive) (f : Fallbacks) :
    (x >>= k).run f = ((k x.value).value, f + (x.cost + (k x.value).cost)) := by
  rw [StateT.run_bind, hx f, ← add_assoc]
  exact hk (f + x.cost)

theorem additive_bind (hx : x.Additive) (hk : ∀ a, (k a).Additive) : (x >>= k).Additive :=
  additive_of_run (run_bind_eq hx (hk _))

theorem value_bind (hx : x.Additive) (hk : ∀ a, (k a).Additive) :
    (x >>= k).value = (k x.value).value :=
  value_of_run (run_bind_eq hx (hk _))

theorem cost_bind (hx : x.Additive) (hk : ∀ a, (k a).Additive) :
    (x >>= k).cost = x.cost + (k x.value).cost :=
  cost_of_run (run_bind_eq hx (hk _))

theorem additive_bind_pure (hx : x.Additive) (k : α → β) :
    (do return k (← x) : CountM β).Additive := by
  apply additive_bind hx
  intro a
  apply additive_pure

theorem value_bind_pure (hx : x.Additive) (k : α → β) :
    (do return k (← x) : CountM β).value = k x.value := by
  apply value_bind hx
  intro a
  apply additive_pure

end Bind

/--
A relation between computations that is kept when related parts are put together.
-/
structure Congruence (R : ∀ {α : Type}, CountM α → CountM α → Prop) : Prop where
  pure_rel : ∀ {α : Type} (a : α), R (pure a) (pure a)
  bind_rel : ∀ {α β : Type} {x y : CountM α} {k l : α → CountM β}, R x y → (∀ a, R (k a) (l a)) →
    R (x >>= k) (y >>= l)

namespace Congruence

variable {R : ∀ {α : Type}, CountM α → CountM α → Prop} (hR : Congruence R) {α β σ : Type}

include hR

theorem bind_pure_rel {x y : CountM α} (h : R x y) (k : α → β) :
    R (do return k (← x)) (do return k (← y)) := by
  apply hR.bind_rel h
  intro a
  exact hR.pure_rel (k a)

theorem mapM_rel {k l : α → CountM β} (h : ∀ a, R (k a) (l a)) (as : List α) :
    R (as.mapM k) (as.mapM l) := by
  induction as with
  | nil =>
    rw [List.mapM_nil, List.mapM_nil]
    apply hR.pure_rel
  | cons a as ih =>
    rw [List.mapM_cons, List.mapM_cons]
    apply hR.bind_rel (h a)
    intro b
    exact hR.bind_pure_rel ih _

theorem foldlM_rel {k l : σ → α → CountM σ} (h : ∀ s a, R (k s a) (l s a)) (s : σ)
    (as : List α) : R (as.foldlM k s) (as.foldlM l s) := by
  induction as generalizing s with
  | nil =>
    rw [List.foldlM_nil, List.foldlM_nil]
    apply hR.pure_rel
  | cons a as ih =>
    rw [List.foldlM_cons, List.foldlM_cons]
    apply hR.bind_rel (h s a)
    apply ih

end Congruence

theorem congruence_eq : Congruence fun x y => x = y where
  pure_rel _ := rfl
  bind_rel hx hk := by rw [hx, funext hk]

theorem congruence_additive : Congruence fun x _ => x.Additive :=
  ⟨additive_pure, additive_bind⟩

/--
`x` is additive and counts fallbacks of certain sorts only.
-/
def SpendsIn (S : AddSubmonoid Fallbacks) (x : CountM α) : Prop :=
  x.Additive ∧ x.cost ∈ S

theorem congruence_spendsIn (S : AddSubmonoid Fallbacks) :
    Congruence fun x _ => x.SpendsIn S where
  pure_rel a := ⟨additive_pure a, S.zero_mem⟩
  bind_rel hx hk := by
    have hadd := fun a => (hk a).1
    refine ⟨additive_bind hx.1 hadd, ?_⟩
    rw [cost_bind hx.1 hadd]
    exact S.add_mem hx.2 (hk _).2

section Lists

variable {α β σ : Type}

theorem additive_mapM {act : α → CountM β} (h : ∀ a, (act a).Additive) (as : List α) :
    (as.mapM act).Additive :=
  congruence_additive.mapM_rel (k := act) (l := act) h as

theorem value_mapM {act : α → CountM β} (h : ∀ a, (act a).Additive) (as : List α) :
    (as.mapM act).value = as.map fun a => (act a).value := by
  induction as with
  | nil =>
    rw [List.mapM_nil]
    rfl
  | cons a as ih =>
    have htail := additive_mapM h as
    rw [List.mapM_cons, value_bind (h a) fun b => additive_bind_pure htail _,
      value_bind_pure htail, ih, List.map_cons]

theorem cost_mapM {act : α → CountM β} (h : ∀ a, (act a).Additive) (as : List α) :
    (as.mapM act).cost = (as.map fun a => (act a).cost).sum := by
  induction as with
  | nil =>
    rw [List.mapM_nil, cost_pure, List.map_nil, List.sum_nil]
  | cons a as ih =>
    have htail := additive_mapM h as
    rw [List.mapM_cons, cost_bind (h a) fun b => additive_bind_pure htail _,
      cost_bind htail fun bs => additive_pure _, cost_pure, add_zero, ih, List.map_cons,
      List.sum_cons]

theorem additive_foldlM {act : σ → α → CountM σ} (h : ∀ s a, (act s a).Additive) (s : σ)
    (as : List α) : (as.foldlM act s).Additive :=
  congruence_additive.foldlM_rel (k := act) (l := act) h s as

theorem value_foldlM {act : σ → α → CountM σ} (h : ∀ s a, (act s a).Additive) (s : σ)
    (as : List α) : (as.foldlM act s).value = as.foldl (fun s a => (act s a).value) s := by
  induction as generalizing s with
  | nil => rfl
  | cons a as ih =>
    rw [List.foldlM_cons, value_bind (h s a) (additive_foldlM h · as), ih, List.foldl_cons]

end Lists

end CountM

end Polyglot
