import Polyglot.Extract.Declarations.Python
import Polyglot.Proofs.Declarations.Search

/-!
This module contains the search for the declarations of Python. It goes on in the body of a
function, in the statements of a class that are no methods, in the bodies of its methods, and
otherwise in all named children. It passes over the heads of functions and classes and the
decorators of methods.
-/

namespace Polyglot.Python

open Extract Search

/--
The method that a statement in the body of a class declares.
-/
def memberOwns (n : Node) : List Node :=
  if isFunction (undecorated n) then [undecorated n] else []

def memberOpens (n : Node) : List Node :=
  if isFunction (undecorated n) then bodyNodes (undecorated n) else [n]

def search : Search where
  owns n :=
    if isFunction n then [n]
    else if n.kind = "class_definition" then (bodyNodes n).flatMap memberOwns ++ [n]
    else []
  opens n :=
    if isFunction n then bodyNodes n
    else if n.kind = "class_definition" then (bodyNodes n).flatMap memberOpens
    else n.namedChildren

theorem undecorated_mem_preorder (n : Node) : undecorated n ∈ n.preorder := by
  unfold undecorated
  split
  case isFalse => apply Node.mem_preorder_self
  case isTrue =>
    cases hfield : n.field? "definition" with
    | none => apply Node.mem_preorder_self
    | some c =>
      apply Node.mem_preorder_of_mem_children (List.mem_of_find?_eq_some hfield)
      apply Node.mem_preorder_self

theorem fits_member (n : Node) : Fits n (memberOwns n) (memberOpens n) := by
  unfold memberOwns memberOpens
  split
  case isTrue => exact (Inside.body (undecorated n)).fits_self.of_mem (undecorated_mem_preorder n)
  case isFalse => exact Fits.self n

theorem fits_members (n : Node) :
    Fits n ((bodyNodes n).flatMap memberOwns) ((bodyNodes n).flatMap memberOpens) := by
  have hbody := Inside.body n
  apply Fits.flatMap hbody.mem_preorder hbody.before
  intro m _
  exact fits_member m

theorem size_lt_of_mem_members {n m : Node} (h : m ∈ (bodyNodes n).flatMap memberOpens) :
    m.size < n.size := by
  obtain ⟨k, hk, hm⟩ := List.mem_flatMap.1 h
  have hle := Node.size_le_of_mem_preorder ((fits_member k).opens_mem m hm)
  have hlt := (Inside.body n).size_lt k hk
  omega

theorem lawful_search : search.Lawful where
  fits n := by
    unfold search
    simp only
    by_cases hfunction : isFunction n
    · simp only [if_pos hfunction]
      exact (Inside.body n).fits_self
    by_cases hclass : n.kind = "class_definition"
    · simp only [if_neg hfunction, if_pos hclass]
      apply (fits_members n).append_self
      intro m
      exact size_lt_of_mem_members
    · simp only [if_neg hfunction, if_neg hclass]
      exact (Inside.namedChildren n).fits
  size_lt n m hm := by
    unfold search at hm
    simp only at hm
    split at hm
    case isTrue => exact (Inside.body n).size_lt m hm
    case isFalse =>
      split at hm
      case isTrue => exact size_lt_of_mem_members hm
      case isFalse => exact (Inside.namedChildren n).size_lt m hm

section Plan

variable (scope : Scope) (scopes : List String)

abbrev ShowsAt (file : String) : List (Step Declared) → (owns opens : List Node) → Prop :=
  Shows (fun item d => item.Describes file d) fun item d => item.node = d

theorem shows_functionSteps {n : Node} {depth : Nat}
    (hclean : .skipped ∉ functionSteps scope scopes n depth) :
    ShowsAt scope.file (functionSteps scope scopes n depth) [n] (bodyNodes n) := by
  unfold functionSteps at *
  cases hname : n.fieldText? "name" with
  | none =>
    rw [hname] at hclean
    exact absurd List.mem_cons_self hclean
  | some name =>
    apply Shows.append (shows_record _ _) (shows_inside name [] (bodyNodes n) (depth + 1))
    · exact ⟨rfl, hname, rfl, rfl, rfl⟩
    · exact fun _ h => h.symm

theorem shows_methodSteps {className : String} {n : Node} {depth : Nat}
    (hclean : .skipped ∉ methodSteps scope scopes className n depth) :
    ShowsAt scope.file (methodSteps scope scopes className n depth) [n] (bodyNodes n) := by
  unfold methodSteps at *
  cases hname : n.fieldText? "name" with
  | none =>
    rw [hname] at hclean
    exact absurd List.mem_cons_self hclean
  | some name =>
    apply Shows.append (shows_record _ _)
      (shows_inside className [name] (bodyNodes n) (depth + 1))
    · exact ⟨rfl, hname, rfl, rfl, rfl⟩
    · exact fun _ h => h.symm

theorem shows_memberSteps {className : String} {n : Node} {depth : Nat}
    (hclean : .skipped ∉ memberSteps scope scopes className depth n) :
    ShowsAt scope.file (memberSteps scope scopes className depth n) (memberOwns n)
      (memberOpens n) := by
  unfold memberSteps memberOwns memberOpens at *
  split
  case isTrue hfunction =>
    rw [if_pos hfunction] at hclean
    exact shows_methodSteps scope scopes hclean
  case isFalse => exact shows_inside className [] [n] depth

theorem shows_classSteps {n : Node} {depth : Nat}
    (hclean : .skipped ∉ classSteps scope scopes n depth) :
    ShowsAt scope.file (classSteps scope scopes n depth)
      ((bodyNodes n).flatMap memberOwns ++ [n]) ((bodyNodes n).flatMap memberOpens) := by
  unfold classSteps at *
  cases hname : n.fieldText? "name" with
  | none =>
    rw [hname] at hclean
    exact absurd List.mem_cons_self hclean
  | some name =>
    rw [hname] at hclean
    rw [← List.append_nil ((bodyNodes n).flatMap memberOpens)]
    apply Shows.append (shows_flatMap _) (shows_record _ _)
    · intro m hm
      apply shows_memberSteps
      intro hskipped
      apply hclean
      exact List.mem_append_left _ (List.mem_flatMap.2 ⟨m, hm, hskipped⟩)
    · exact ⟨rfl, hname, rfl, rfl, rfl⟩
    · exact fun _ h => h.symm

theorem plan_eq (n : Node) (depth : Nat) :
    plan scope scopes n depth =
      if isFunction n then { steps := functionSteps scope scopes n depth }
      else if n.kind = "class_definition" then { steps := classSteps scope scopes n depth }
      else .descendOnly := by
  unfold plan isFunction
  split
  case h_1 hkind => simp only [hkind, beq_self_eq_true, if_true]
  case h_2 hkind => simp [hkind]
  case h_3 hfunction hclass =>
    rw [if_neg, if_neg hclass]
    simpa using hfunction

theorem shows_plan {n : Node} {depth : Nat} (hclean : (plan scope scopes n depth).Clean) :
    ∃ opens, ShowsAt scope.file (plan scope scopes n depth).steps (search.owns n) opens ∧
      (plan scope scopes n depth).opened n = search.opens n := by
  rw [plan_eq] at *
  unfold search Plan.opened
  simp only
  by_cases hfunction : isFunction n
  · simp only [if_pos hfunction] at *
    have hshows := shows_functionSteps scope scopes hclean.1
    exact ⟨_, hshows, by simp [hshows.nodes_eq]⟩
  by_cases hclass : n.kind = "class_definition"
  · simp only [if_neg hfunction, if_pos hclass] at *
    have hshows := shows_classSteps scope scopes hclean.1
    exact ⟨_, hshows, by simp [hshows.nodes_eq]⟩
  · simp only [if_neg hfunction, if_neg hclass]
    exact ⟨[], shows_nil, rfl⟩

end Plan

/--
As long as nothing is counted, a node has a record exactly if the search finds it.
-/
theorem exists_record_iff {scope : Scope} {starts : List Node}
    (hclean : Clean (traceAll plan scope starts)) (d : Node) :
    (∃ item ∈ Extract.recorded (traceAll plan scope starts), item.Describes scope.file d) ↔
      search.Finds starts d := by
  apply exists_describes_iff hclean lawful_search
  · intro scopes n depth hplan
    obtain ⟨_, _, hopened⟩ := shows_plan scope scopes hplan
    exact hopened
  · intro scopes n depth hplan hd
    obtain ⟨_, hshows, _⟩ := shows_plan scope scopes hplan
    exact hshows.described d hd
  · intro scopes n depth hn hplan item hitem hdescribes
    obtain ⟨_, hshows, _⟩ := shows_plan scope scopes hplan
    exact ⟨n, hn, hshows.owned item hitem d hdescribes.node_eq⟩

end Polyglot.Python
