import Mathlib.Data.List.TakeWhile
import Polyglot.Text.Blank

/-!
This module contains the facts on blanks: what is left of a text when those at its ends, or all of
them, are removed.
-/

namespace Polyglot.Text

theorem dropWhile_eq_self_iff_head {p : Char → Bool} {cs : List Char} :
    cs.dropWhile p = cs ↔ ∀ c ∈ cs.head?, ¬ p c := by
  rw [List.dropWhile_eq_self_iff]
  cases cs with
  | nil => simp
  | cons c cs => simp

theorem dropWhile_of_head {p : Char → Bool} {cs : List Char} (h : ∀ c ∈ cs.head?, ¬ p c) :
    cs.dropWhile p = cs :=
  dropWhile_eq_self_iff_head.2 h

section Ends

variable {a : Char} {cs : List Char}

/--
If a text ends in something that is not blank, then what stands in front of it is kept.
-/
theorem dropBlanksEnd_append (front : List Char) (h : ∃ c ∈ cs, ¬ isBlank c) :
    dropBlanksEnd (front ++ cs) = front ++ dropBlanksEnd cs := by
  unfold dropBlanksEnd dropEndWhile
  rw [List.reverse_append, List.dropWhile_append, if_neg, List.reverse_append,
    List.reverse_reverse]
  rw [List.isEmpty_iff, List.dropWhile_eq_nil_iff]
  intro hall
  obtain ⟨c, hc, hblank⟩ := h
  exact hblank (hall c (List.mem_reverse.mpr hc))

theorem dropBlanksEnd_initial (cs : List Char) : dropBlanksEnd cs <+: cs := by
  unfold dropBlanksEnd dropEndWhile
  rw [← List.reverse_suffix, List.reverse_reverse]
  exact List.dropWhile_suffix _

theorem dropBlanksEnd_cons (h : ¬ isBlank a) (cs : List Char) :
    dropBlanksEnd (a :: cs) = a :: dropBlanksEnd cs := by
  unfold dropBlanksEnd dropEndWhile
  rw [List.reverse_cons, List.dropWhile_append]
  split
  case isTrue hempty =>
    rw [List.dropWhile_cons_of_neg h, List.isEmpty_iff.mp hempty]
    rfl
  case isFalse => rw [List.reverse_append, List.reverse_singleton, List.singleton_append]

theorem dropBlanksEnd_of_noBlanks (h : ∀ c ∈ cs, ¬ isBlank c) : dropBlanksEnd cs = cs := by
  induction cs with
  | nil => rfl
  | cons c cs ih =>
    obtain ⟨hc, hcs⟩ := List.forall_mem_cons.mp h
    rw [dropBlanksEnd_cons hc, ih hcs]

theorem trimChars_eq_self (hhead : ∀ c ∈ cs.head?, ¬ isBlank c)
    (hlast : ∀ c ∈ cs.getLast?, ¬ isBlank c) : trimChars cs = cs := by
  rw [trimChars, dropBlanks, dropWhile_of_head hhead, dropBlanksEnd, dropEndWhile,
    dropWhile_of_head, List.reverse_reverse]
  rw [List.head?_reverse]
  exact hlast

end Ends

section Everywhere

theorem not_isBlank_of_mem {c : Char} {cs : List Char} (h : c ∈ withoutBlanks cs) :
    ¬ isBlank c := by
  simpa using (List.mem_filter.1 h).2

theorem withoutBlanks_of_noBlanks {cs : List Char} (h : ∀ c ∈ cs, ¬ isBlank c) :
    withoutBlanks cs = cs := by
  unfold withoutBlanks
  rw [List.filter_eq_self]
  intro c hc
  simpa using h c hc

theorem withoutBlanks_append (cs ds : List Char) :
    withoutBlanks (cs ++ ds) = withoutBlanks cs ++ withoutBlanks ds :=
  List.filter_append ..

theorem withoutBlanks_of_all {cs : List Char} (h : cs.all isBlank) : withoutBlanks cs = [] := by
  unfold withoutBlanks
  rw [List.filter_eq_nil_iff]
  intro c hc
  rw [List.all_eq_true.1 h c hc]
  exact Bool.false_ne_true

theorem withoutBlanks_dropBlanks (cs : List Char) :
    withoutBlanks (dropBlanks cs) = withoutBlanks cs := by
  induction cs with
  | nil => rfl
  | cons c cs ih =>
    unfold dropBlanks withoutBlanks at *
    by_cases hc : isBlank c
    · rw [List.dropWhile_cons_of_pos hc, ih]
      simp [hc]
    · rw [List.dropWhile_cons_of_neg hc]

theorem withoutBlanks_dropBlanksEnd (cs : List Char) :
    withoutBlanks (dropBlanksEnd cs) = withoutBlanks cs := by
  have hreverse (cs : List Char) : withoutBlanks cs.reverse = (withoutBlanks cs).reverse :=
    List.filter_reverse
  unfold dropBlanksEnd dropEndWhile
  rw [hreverse, ← dropBlanks, withoutBlanks_dropBlanks, hreverse, List.reverse_reverse]

end Everywhere

end Polyglot.Text
