import Polyglot.Extract.Facts
import Polyglot.Proofs.Declarations.Trace
import Polyglot.Proofs.Limits.Basic

/-!
This module contains the extraction of declarations under wider limits. A language plans the same
for a node, or it truncates the members of a declaration, and then the node yields no function. So
nothing changes if nothing is truncated, and otherwise functions are added and none is lost.
-/

namespace Polyglot.Extract

open CountM

variable {ρ β : Type} {planner : Planner ρ} {p : ρ → Option β} {scope scope' : Scope}

/--
A plan that truncates something and looks for declarations nowhere else. What it records is not
selected by `p`.
-/
structure Plan.Truncates (p : ρ → Option β) (plan : Plan ρ) : Prop where
  mem_steps : .truncated ∈ plan.steps
  barren : ∀ step ∈ plan.steps, step = .truncated ∨ ∃ item, step = .record item ∧ p item = none
  descend : plan.descend = false

/--
With the limits of `scope'`, a planner plans the same, unless it truncates with those of `scope`.
-/
def Planner.Widens (planner : Planner ρ) (p : ρ → Option β) (scope scope' : Scope) : Prop :=
  ∀ scopes n depth, planner scope' scopes n depth = planner scope scopes n depth ∨
    (planner scope scopes n depth).Truncates p

theorem truncated_not_mem_of_limitHits {events : List (Event ρ)}
    (h : (counted events).limitHits = 0) : .truncated ∉ events := by
  induction events with
  | nil => exact List.not_mem_nil
  | cons event events ih =>
    rw [counted, List.map_cons, List.sum_cons, Fallbacks.limitHits_add_eq_zero] at h
    rw [List.mem_cons, not_or]
    refine ⟨?_, ih h.2⟩
    rintro rfl
    exact absurd h.1 Nat.one_ne_zero

theorem trace_of_widens (hplan : planner.Widens p scope scope')
    (hle : scope.limits ≤ scope'.limits) {scopes : List String} {n : Node} {depth : Nat}
    (h : .truncated ∉ trace planner scope scopes n depth) :
    trace planner scope' scopes n depth = trace planner scope scopes n depth := by
  obtain ⟨-, -, htree, hscope⟩ := Limits.le_def.1 hle
  by_cases hscopes : scope.limits.maxScopeDepth < scopes.length
  · rw [trace_of_scopes hscopes] at h
    exact absurd (List.mem_singleton.2 rfl) h
  by_cases hdepth : scope.limits.maxTreeDepth < depth
  · rw [trace_of_depth hdepth] at h
    exact absurd (List.mem_singleton.2 rfl) h
  rw [trace_eq (by omega) (by omega), List.mem_append, not_or] at h
  rw [trace_eq (by omega) (by omega), trace_eq (by omega) (by omega)]
  rcases hplan scopes n depth with hsame | htruncates
  · rw [hsame]
    congr 1
    · apply List.flatMap_congr
      intro step hstep
      cases step with
      | inside name more nodes depth =>
        apply List.flatMap_congr
        intro m hm
        apply trace_of_widens hplan hle
        intro hmem
        exact h.1 (List.mem_flatMap.2 ⟨_, hstep, List.mem_flatMap.2 ⟨m, hm, hmem⟩⟩)
      | _ => rfl
    · split
      · rename_i hdescend
        rw [if_pos hdescend] at h
        apply List.flatMap_congr
        intro c hc
        apply trace_of_widens hplan hle
        intro hmem
        exact h.2 (List.mem_flatMap.2 ⟨c, hc, hmem⟩)
      · rfl
  · exact absurd (List.mem_flatMap.2 ⟨_, htruncates.mem_steps, List.mem_singleton.2 rfl⟩) h.1
termination_by (scope.limits.maxScopeDepth + 1 - scopes.length, n.size)
decreasing_by
  · apply Prod.Lex.left
    simp only [List.length_append, List.length_cons]
    omega
  · apply Prod.Lex.right
    exact Node.size_lt_of_mem_namedChildren hc

theorem relaxes_declarations (hplan : planner.Widens p scope scope')
    (hle : scope.limits ≤ scope'.limits) (nodes : List Node) :
    (declarations planner scope nodes).Relaxes (declarations planner scope' nodes) := by
  have hrun := run_declarations planner scope nodes
  refine ⟨additive_of_run hrun, ?_⟩
  intro hno
  rw [cost_of_run hrun] at hno
  have htrace : traceAll planner scope' nodes = traceAll planner scope nodes := by
    apply List.flatMap_congr
    intro n hn
    apply trace_of_widens hplan hle
    intro hmem
    exact truncated_not_mem_of_limitHits hno (List.mem_flatMap.2 ⟨n, hn, hmem⟩)
  apply StateT.ext
  intro f
  rw [run_declarations, run_declarations, htrace]

theorem Plan.Truncates.collected_steps {plan : Plan ρ} (h : plan.Truncates p)
    (scopes : List String) : plan.steps.flatMap (collectedBy p planner scope scopes) = [] := by
  rw [List.flatMap_eq_nil_iff]
  intro step hstep
  rcases h.barren step hstep with rfl | ⟨item, rfl, hitem⟩
  · rfl
  · rw [collectedBy, hitem]
    rfl

theorem sublist_collected (hplan : planner.Widens p scope scope')
    (htree : scope.limits.maxTreeDepth ≤ scope'.limits.maxTreeDepth)
    (hscope : scope.limits.maxScopeDepth ≤ scope'.limits.maxScopeDepth) (scopes : List String)
    (n : Node) (depth : Nat) :
    (collected p planner scope scopes n depth).Sublist
      (collected p planner scope' scopes n depth) := by
  by_cases hlimits :
      scopes.length ≤ scope.limits.maxScopeDepth ∧ depth ≤ scope.limits.maxTreeDepth
  · rw [collected_eq p hlimits, collected_eq p (by omega)]
    rcases hplan scopes n depth with hsame | htruncates
    · rw [hsame]
      apply List.Sublist.append
      · apply List.Sublist.flatMap_right
        intro step _
        cases step with
        | inside name more nodes depth =>
          apply List.Sublist.flatMap_right
          intro m _
          exact sublist_collected hplan htree hscope (scopes ++ name :: more) m depth
        | _ => apply List.Sublist.refl
      · split
        · apply List.Sublist.flatMap_right
          intro c hc
          exact sublist_collected hplan htree hscope scopes c (depth + 1)
        · apply List.Sublist.refl
    · rw [htruncates.collected_steps, htruncates.descend]
      apply List.nil_sublist
  · rw [collected_of_limits p hlimits]
    apply List.nil_sublist
termination_by (scope.limits.maxScopeDepth + 1 - scopes.length, n.size)
decreasing_by
  · apply Prod.Lex.left
    simp only [List.length_append, List.length_cons]
    omega
  · apply Prod.Lex.right
    exact Node.size_lt_of_mem_namedChildren hc

/--
Wider limits add declarations, and those that `p` selects are kept.
-/
theorem sublist_declarations (hplan : planner.Widens p scope scope')
    (htree : scope.limits.maxTreeDepth ≤ scope'.limits.maxTreeDepth)
    (hscope : scope.limits.maxScopeDepth ≤ scope'.limits.maxScopeDepth) (nodes : List Node)
    (f f' : Fallbacks) :
    (((declarations planner scope nodes).run f).1.filterMap p).Sublist
      (((declarations planner scope' nodes).run f').1.filterMap p) := by
  rw [filterMap_declarations, filterMap_declarations]
  apply List.Sublist.flatMap_right
  intro n _
  exact sublist_collected hplan htree hscope [] n 0

end Polyglot.Extract

namespace Polyglot

open Extract

variable {scope scope' : Scope} (hfile : scope'.file = scope.file)

include hfile

theorem Python.widens_plan (p : Declared → Option β) :
    Planner.Widens Python.plan p scope scope' := by
  intro scopes n depth
  obtain ⟨file, limits⟩ := scope
  obtain rfl : scope'.file = file := hfile
  exact .inl rfl

theorem TypeScript.widens_plan (p : Declared → Option β) :
    Planner.Widens TypeScript.plan p scope scope' := by
  intro scopes n depth
  obtain ⟨file, limits⟩ := scope
  obtain rfl : scope'.file = file := hfile
  exact .inl rfl

namespace Rust

variable (hle : scope.limits.maxTreeDepth ≤ scope'.limits.maxTreeDepth)

include hle

theorem members_of_le (scopes : List String) (outer : String) (owner : Owner) (n : Node)
    (depth : Nat) :
    members scope' scopes outer owner n depth = members scope scopes outer owner n depth ∨
      members scope scopes outer owner n depth = ([.truncated], []) := by
  obtain ⟨file, limits⟩ := scope
  obtain rfl : scope'.file = file := hfile
  unfold members
  cases n.field? "body" with
  | none => exact .inl rfl
  | some body =>
    simp only at hle ⊢
    by_cases hdepth : limits.maxTreeDepth < depth
    · rw [if_pos hdepth]
      exact .inr rfl
    · rw [if_neg hdepth, if_neg (by omega)]
      exact .inl rfl

omit hfile hle in
theorem truncates_of_function? {item : Item} (h : item.function? = none) :
    Plan.Truncates Item.function? { steps := [.truncated, .record item] } where
  mem_steps := List.mem_cons_self
  barren := by simp [h]
  descend := rfl

theorem implSteps_of_le (scopes : List String) (n : Node) (depth : Nat) :
    implSteps scope' scopes n depth = implSteps scope scopes n depth ∨
      ∃ block, implSteps scope scopes n depth = [.truncated, .record (.impl n block)] := by
  unfold implSteps
  cases n.fieldText? "type" with
  | none => exact .inl rfl
  | some type =>
    simp only
    generalize hmembers : members scope scopes _ _ n (depth + 1) = found
    rcases members_of_le hfile hle scopes _ _ n (depth + 1) with hsame | htruncated
    · left
      rw [hsame, hmembers]
    · right
      rw [hmembers] at htruncated
      rw [htruncated]
      exact ⟨_, rfl⟩

theorem traitSteps_of_le (scopes : List String) (n : Node) (depth : Nat) :
    traitSteps scope' scopes n depth = traitSteps scope scopes n depth ∨
      ∃ decl, traitSteps scope scopes n depth = [.truncated, .record (.trait n decl)] := by
  unfold traitSteps
  cases n.fieldText? "name" with
  | none => exact .inl rfl
  | some name =>
    simp only
    rcases members_of_le hfile hle scopes name _ n (depth + 1) with hsame | htruncated
    · left
      rw [hsame]
      simp only [classDecl, hfile]
    · right
      rw [htruncated]
      exact ⟨_, rfl⟩

theorem widens_plan : Planner.Widens plan Item.function? scope scope' := by
  intro scopes n depth
  unfold plan
  split
  · left
    simp only [functionSteps, functionDecl, hfile]
  · left
    simp only [functionSteps, functionDecl, hfile]
  · rcases implSteps_of_le hfile hle scopes n depth with hsame | ⟨block, htruncated⟩
    · rw [hsame]
      exact .inl rfl
    · rw [htruncated]
      exact .inr (truncates_of_function? rfl)
  · rcases traitSteps_of_le hfile hle scopes n depth with hsame | ⟨decl, htruncated⟩
    · rw [hsame]
      exact .inl rfl
    · rw [htruncated]
      exact .inr (truncates_of_function? rfl)
  all_goals
    left
    simp only [typeSteps, classDecl, hfile]

end Rust

end Polyglot
