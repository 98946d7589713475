import Mathlib.Data.List.Perm.Basic
import Polyglot.Proofs.Declarations.Search

/-!
This module contains what can be said of all records of a walk from the plans alone. A property of
lists of records that does not depend on their order, and that passes to lists put together, holds
of a whole walk as soon as it holds of every plan.
-/

namespace Polyglot.Extract

variable {ρ : Type}

structure Cumulative (P : List ρ → Prop) : Prop where
  nil : P []
  append : ∀ {as bs : List ρ}, P as → P bs → P (as ++ bs)
  perm : ∀ {as bs : List ρ}, as.Perm bs → P as → P bs

theorem cumulative_forall (Q : ρ → Prop) :
    Cumulative fun items : List ρ => ∀ item ∈ items, Q item where
  nil := List.forall_mem_nil _
  append has hbs := by
    intro item hitem
    rcases List.mem_append.1 hitem with hitem | hitem
    · exact has item hitem
    · exact hbs item hitem
  perm hperm has := by
    intro item hitem
    exact has item (hperm.mem_iff.2 hitem)

theorem recorded_flatMap {α : Type} (as : List α) (events : α → List (Event ρ)) :
    recorded (as.flatMap events) = as.flatMap fun a => recorded (events a) := by
  unfold recorded
  rw [List.filterMap_flatMap]

/--
What a step records in the nodes inside a scope that it opens.
-/
def nested (planner : Planner ρ) (scope : Scope) (scopes : List String) : Step ρ → List ρ
  | .inside name more nodes depth =>
    nodes.flatMap fun n => recorded (trace planner scope (scopes ++ name :: more) n depth)
  | _ => []

section Trace

variable (planner : Planner ρ) (scope : Scope) (scopes : List String)

theorem recorded_stepEvents (step : Step ρ) :
    recorded (stepEvents planner scope scopes step) =
      step.item?.toList ++ nested planner scope scopes step := by
  cases step with
  | record item => rfl
  | skipped => rfl
  | truncated => rfl
  | inside name more nodes depth =>
    rw [stepEvents, recorded_flatMap]
    rfl

theorem recorded_steps_perm (steps : List (Step ρ)) :
    (steps.filterMap Step.item? ++ steps.flatMap (nested planner scope scopes)).Perm
      (recorded (steps.flatMap (stepEvents planner scope scopes))) := by
  rw [recorded_flatMap, List.filterMap_eq_flatMap_toList]
  simp only [recorded_stepEvents]
  apply List.flatMap_append_perm

end Trace

namespace Cumulative

variable {P : List ρ → Prop} (hP : Cumulative P)

include hP

theorem flatMap {α : Type} {as : List α} {F : α → List ρ} (hF : ∀ a ∈ as, P (F a)) :
    P (as.flatMap F) := by
  induction as with
  | nil => exact hP.nil
  | cons a as ih =>
    rw [List.forall_mem_cons] at hF
    rw [List.flatMap_cons]
    exact hP.append hF.1 (ih hF.2)

variable {planner : Planner ρ} {scope : Scope}
  (hplan : ∀ scopes n depth, P (planner scope scopes n depth).items)

include hplan

theorem recorded_trace (scopes : List String) (n : Node) (depth : Nat) :
    P (recorded (trace planner scope scopes n depth)) := by
  by_cases hscopes : scope.limits.maxScopeDepth < scopes.length
  · rw [trace_of_scopes hscopes]
    exact hP.nil
  by_cases hdepth : scope.limits.maxTreeDepth < depth
  · rw [trace_of_depth hdepth]
    exact hP.nil
  rw [trace_eq (Nat.le_of_not_lt hscopes) (Nat.le_of_not_lt hdepth), recorded_append]
  apply hP.append
  · apply hP.perm (recorded_steps_perm planner scope scopes _)
    apply hP.append (hplan scopes n depth)
    apply hP.flatMap
    intro step _
    cases step with
    | inside name more nodes below =>
      apply hP.flatMap
      intro m _
      exact recorded_trace (scopes ++ name :: more) m below
    | _ => exact hP.nil
  · split
    · rw [recorded_flatMap]
      apply hP.flatMap
      intro c hc
      exact recorded_trace scopes c (depth + 1)
    · exact hP.nil
termination_by (scope.limits.maxScopeDepth + 1 - scopes.length, n.size)
decreasing_by
  · apply Prod.Lex.left
    simp only [List.length_append, List.length_cons]
    omega
  · apply Prod.Lex.right
    exact Node.size_lt_of_mem_namedChildren hc

theorem recorded_traceAll (nodes : List Node) : P (recorded (traceAll planner scope nodes)) := by
  unfold traceAll
  rw [recorded_flatMap]
  apply hP.flatMap
  intro n _
  exact hP.recorded_trace hplan [] n 0

end Cumulative

end Polyglot.Extract
