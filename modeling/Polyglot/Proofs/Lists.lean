import Mathlib.Data.List.Basic
import Mathlib.Data.List.Forall2

/-!
This module contains facts about lists that several proofs share.
-/

namespace Polyglot

/-! Parts of a list -/

theorem flatMap_filter (p : α → Bool) (as : List α) (f : α → List β) :
    (as.filter p).flatMap f = as.flatMap fun a => if p a then f a else [] := by
  induction as with
  | nil => rfl
  | cons a as ih =>
    rw [List.flatMap_cons, ← ih, List.filter_cons]
    split
    · rw [List.flatMap_cons]
    · rfl

theorem exists_append_of_pairwise {p : α → Prop} {l : List α}
    (h : l.Pairwise fun a b => p b → p a) :
    ∃ l₁ l₂, l = l₁ ++ l₂ ∧ (∀ a ∈ l₁, p a) ∧ ∀ a ∈ l₂, ¬ p a := by
  induction l with
  | nil => exact ⟨[], [], rfl, by simp, by simp⟩
  | cons a l ih =>
    rw [List.pairwise_cons] at h
    by_cases ha : p a
    · obtain ⟨l₁, l₂, rfl, h₁, h₂⟩ := ih h.2
      exact ⟨a :: l₁, l₂, rfl, List.forall_mem_cons.2 ⟨ha, h₁⟩, h₂⟩
    · refine ⟨[], a :: l, rfl, by simp, List.forall_mem_cons.2 ⟨ha, ?_⟩⟩
      intro b hb hpb
      exact ha (h.1 b hb hpb)

theorem filter_of_middle {p : α → Prop} [DecidablePred p] {l m r : List α} (hl : ∀ a ∈ l, ¬ p a)
    (hm : ∀ a ∈ m, p a) (hr : ∀ a ∈ r, ¬ p a) :
    (l ++ (m ++ r)).filter p = m ∧ (l ++ (m ++ r)).filter (¬ p ·) = l ++ r := by
  have houter : ∀ {k : List α}, (∀ a ∈ k, ¬ p a) → k.filter p = [] ∧ k.filter (¬ p ·) = k := by
    intro k hk
    simpa [List.filter_eq_nil_iff, List.filter_eq_self] using hk
  have hinner : m.filter p = m ∧ m.filter (¬ p ·) = [] := by
    simpa [List.filter_eq_nil_iff, List.filter_eq_self] using hm
  simp only [List.filter_append, houter hl, houter hr, hinner, List.nil_append, List.append_nil,
    and_self]

theorem takeWhile_prefix_takeWhile {p q : α → Bool} (h : ∀ a, p a → q a) (as : List α) :
    as.takeWhile p <+: as.takeWhile q := by
  induction as with
  | nil => exact List.nil_prefix
  | cons a as ih =>
    rw [List.takeWhile_cons]
    split
    · next hp =>
      rw [List.takeWhile_cons, if_pos (h a hp)]
      exact (List.prefix_cons_inj a).2 ih
    · exact List.nil_prefix

theorem countP_lt_countP {p q : α → Bool} {l : List α} {a : α} (ha : a ∈ l)
    (himp : ∀ b ∈ l, p b → q b) (hp : ¬ p a) (hq : q a) : l.countP p < l.countP q := by
  obtain ⟨before, after, rfl⟩ := List.append_of_mem ha
  have hbefore : before.countP p ≤ before.countP q := by
    apply List.countP_mono_left
    intro b hb
    exact himp b (List.mem_append_left _ hb)
  have hafter : after.countP p ≤ after.countP q := by
    apply List.countP_mono_left
    intro b hb
    exact himp b (List.mem_append_right _ (List.mem_cons_of_mem a hb))
  rw [List.countP_append, List.countP_append, List.countP_cons_of_neg hp,
    List.countP_cons_of_pos hq]
  omega

/-! Lists without repetition, in the order in which elements first occur -/

section EraseDups

variable [BEq α] [LawfulBEq α]

theorem nodup_eraseDups (l : List α) : l.eraseDups.Nodup := by
  induction hlength : l.length using Nat.strongRecOn generalizing l with
  | ind length ih =>
    cases l with
    | nil => exact .nil
    | cons a l =>
      rw [List.eraseDups_cons, List.nodup_cons]
      constructor
      · simp [List.mem_eraseDups]
      · apply ih _ _ _ rfl
        rw [← hlength, List.length_cons]
        exact Nat.lt_succ_of_le (List.length_filter_le _ _)

theorem eraseDups_append_singleton [DecidableEq α] (l : List α) (a : α) :
    (l ++ [a]).eraseDups = l.eraseDups ++ if a ∈ l then [] else [a] := by
  rw [List.eraseDups_append, List.cons_removeAll]
  by_cases h : a ∈ l
  · simp [h]
  · simp [h, List.eraseDups_cons]

end EraseDups

/-! Lists side by side -/

theorem forall₂_map_of_mem {R : α → β → Prop} {S : γ → δ → Prop} {f : α → γ} {g : β → δ}
    {as : List α} {bs : List β} (h : List.Forall₂ R as bs)
    (hfg : ∀ a ∈ as, ∀ b, R a b → S (f a) (g b)) : List.Forall₂ S (as.map f) (bs.map g) := by
  induction h with
  | nil => exact .nil
  | cons hab _ ih =>
    rw [List.forall_mem_cons] at hfg
    exact .cons (hfg.1 _ hab) (ih hfg.2)

theorem map_eq_map_of_forall₂ {R : α → β → Prop} {f : α → γ} {g : β → γ} {as : List α} {bs : List β}
    (h : List.Forall₂ R as bs) (hfg : ∀ a ∈ as, ∀ b, R a b → f a = g b) : as.map f = bs.map g := by
  rw [← List.forall₂_eq_eq_eq]
  exact forall₂_map_of_mem h hfg

/-! Sorting by a key -/

section Keys

variable {α : Type} (key : α → String) (l : List α)

end Keys

end Polyglot
