import Polyglot.Text.Affix

/-!
This module contains the facts on the removal of beginnings and ends: what is removed is there, what
is there is removed, and another first or last element is enough for it not to be there.
-/

namespace Polyglot.Text

section Append

variable {α : Type} [BEq α] [ReflBEq α]

theorem dropHead?_append (start cs : List α) : dropHead? start (start ++ cs) = some cs := by
  induction start with
  | nil => rfl
  | cons a start ih =>
    rw [List.cons_append, dropHead?, if_pos BEq.rfl]
    exact ih

theorem dropTail?_append (tail cs : List α) : dropTail? tail (cs ++ tail) = some cs := by
  rw [dropTail?, List.reverse_append, dropHead?_append, Option.map_some, List.reverse_reverse]

end Append

theorem eq_append_of_dropHead? {start cs rest : List Char} (h : dropHead? start cs = some rest) :
    cs = start ++ rest := by
  induction start generalizing cs with
  | nil => exact Option.some.inj h
  | cons a start ih =>
    cases cs with
    | nil => cases h
    | cons c cs =>
      rw [dropHead?, Option.ite_none_right_eq_some, beq_iff_eq] at h
      rw [h.1, ih h.2, List.cons_append]

theorem dropHead?_eq_some_iff {start cs rest : List Char} :
    dropHead? start cs = some rest ↔ cs = start ++ rest := by
  constructor
  · exact eq_append_of_dropHead?
  · rintro rfl
    apply dropHead?_append

theorem dropTail?_eq_some_iff {tail cs rest : List Char} :
    dropTail? tail cs = some rest ↔ cs = rest ++ tail := by
  constructor
  · intro h
    obtain ⟨reversed, hreversed, rfl⟩ := Option.map_eq_some_iff.1 h
    rw [← List.reverse_reverse cs, eq_append_of_dropHead? hreversed, List.reverse_append,
      List.reverse_reverse]
  · rintro rfl
    apply dropTail?_append

section Ends

variable {a : Char} {cs : List Char}

theorem dropHead?_of_head {start : List Char} (h : cs.head? ≠ some a) :
    dropHead? (a :: start) cs = none := by
  cases cs with
  | nil => rfl
  | cons c cs =>
    rw [dropHead?, if_neg]
    rw [beq_iff_eq]
    rintro rfl
    exact h rfl

theorem dropTail?_of_last {tail : List Char} (h : cs.getLast? ≠ some a) :
    dropTail? (tail ++ [a]) cs = none := by
  unfold dropTail?
  rw [List.reverse_append, List.reverse_singleton, List.singleton_append, dropHead?_of_head]
  · rfl
  · rwa [List.head?_reverse]

end Ends

end Polyglot.Text
