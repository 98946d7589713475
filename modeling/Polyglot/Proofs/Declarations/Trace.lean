import Polyglot.Extract.Declarations
import Polyglot.Proofs.Tree.Walk

/-!
This module contains the walk that collects declarations as a plain recursion. The recursion lists
the events of the walk: what is recorded and what is counted, in order. The walk has no other
effect.
-/

namespace Polyglot.Extract

/--
Something that happens on a walk.
-/
inductive Event (ρ : Type) where
  | record (item : ρ)
  | skipped
  | truncated

namespace Event

def item? : Event ρ → Option ρ
  | record item => some item
  | _ => none

def cost : Event ρ → Fallbacks
  | record _ => 0
  | skipped => { skippedDeclarations := 1 }
  | truncated => { truncatedSubtrees := 1 }

end Event

variable {ρ : Type}

def recorded (events : List (Event ρ)) : List ρ := events.filterMap Event.item?

def counted (events : List (Event ρ)) : Fallbacks := (events.map Event.cost).sum

theorem recorded_append (es es' : List (Event ρ)) :
    recorded (es ++ es') = recorded es ++ recorded es' :=
  List.filterMap_append

theorem counted_append (es es' : List (Event ρ)) :
    counted (es ++ es') = counted es + counted es' := by
  rw [counted, counted, counted, List.map_append, List.sum_append]

section Emits

/--
`x` records and counts what the events say, and does nothing else.
-/
def Emits (x : StateT (Array ρ) CountM Unit) (events : List (Event ρ)) : Prop :=
  ∀ items f, (x.run items).run f = (((), items ++ (recorded events).toArray), f + counted events)

variable {x : StateT (Array ρ) CountM Unit} {es es' : List (Event ρ)}

theorem emits_pure : Emits (pure () : StateT (Array ρ) CountM Unit) [] := by
  intro items f
  simp only [recorded, counted, List.filterMap_nil, List.map_nil, List.sum_nil, Array.append_empty,
    add_zero]
  rfl

theorem emits_bind {k : Unit → StateT (Array ρ) CountM Unit} (hx : Emits x es)
    (hk : Emits (k ()) es') : Emits (x >>= k) (es ++ es') := by
  intro items f
  rw [StateT.run_bind, StateT.run_bind, hx items f]
  change ((k ()).run _).run _ = _
  rw [hk, recorded_append, counted_append, add_assoc, Array.append_assoc]
  simp

theorem emits_forM {α : Type} {act : α → StateT (Array ρ) CountM Unit}
    {events : α → List (Event ρ)} {as : List α} (h : ∀ a ∈ as, Emits (act a) (events a)) :
    Emits (as.forM act) (as.flatMap events) := by
  induction as with
  | nil =>
    rw [List.forM_eq_forM, List.forM_nil]
    exact emits_pure
  | cons a as ih =>
    rw [List.forall_mem_cons] at h
    rw [List.forM_eq_forM, List.forM_cons, ← List.forM_eq_forM, List.flatMap_cons]
    exact emits_bind h.1 (ih h.2)

theorem emits_record (item : ρ) :
    Emits (modify (·.push item) : StateT (Array ρ) CountM Unit) [.record item] := by
  intro items f
  simp only [recorded, counted, List.filterMap_cons, List.filterMap_nil, Event.item?, List.map_cons,
    List.map_nil, List.sum_cons, List.sum_nil, Event.cost, add_zero]
  rfl

theorem emits_skipped :
    Emits (CountM.skippedDeclaration : StateT (Array ρ) CountM Unit) [.skipped] := by
  intro items f
  simp only [recorded, counted, List.filterMap_cons, List.filterMap_nil, Event.item?, List.map_cons,
    List.map_nil, List.sum_cons, List.sum_nil, Event.cost, add_zero, Array.append_empty]
  rfl

theorem emits_truncated :
    Emits (CountM.truncatedSubtree : StateT (Array ρ) CountM Unit) [.truncated] := by
  intro items f
  simp only [recorded, counted, List.filterMap_cons, List.filterMap_nil, Event.item?, List.map_cons,
    List.map_nil, List.sum_cons, List.sum_nil, Event.cost, add_zero, Array.append_empty]
  rfl

end Emits

/--
One thing that is done at a node inside the given scopes.
-/
def perform (planner : Planner ρ) (scope : Scope) (scopes : List String) :
    Step ρ → StateT (Array ρ) CountM Unit
  | .record item => modify (·.push item)
  | .skipped => CountM.skippedDeclaration
  | .truncated => CountM.truncatedSubtree
  | .inside name more nodes depth =>
    nodes.forM fun n => visit planner scope (scopes ++ name :: more) n depth

/--
The events of a visit, by recursion over the tree: those of the steps at the node, and then those of
the named children.
-/
def trace (planner : Planner ρ) (scope : Scope) (scopes : List String) (n : Node) (depth : Nat) :
    List (Event ρ) :=
  if scope.limits.maxScopeDepth < scopes.length then [.truncated]
  else if scope.limits.maxTreeDepth < depth then [.truncated]
  else
    let plan := planner scope scopes n depth
    let here := plan.steps.flatMap fun step =>
      match step with
      | .record item => [.record item]
      | .skipped => [.skipped]
      | .truncated => [.truncated]
      | .inside name more nodes depth =>
        nodes.flatMap fun n => trace planner scope (scopes ++ name :: more) n depth
    if plan.descend then
      here ++ n.namedChildren.attach.flatMap fun ⟨c, _⟩ => trace planner scope scopes c (depth + 1)
    else here
termination_by (scope.limits.maxScopeDepth + 1 - scopes.length, n.size)
decreasing_by
  · apply Prod.Lex.left
    simp only [List.length_append, List.length_cons]
    omega
  · apply Prod.Lex.right
    exact Node.size_lt_of_mem_namedChildren ‹_›

def stepEvents (planner : Planner ρ) (scope : Scope) (scopes : List String) :
    Step ρ → List (Event ρ)
  | .record item => [.record item]
  | .skipped => [.skipped]
  | .truncated => [.truncated]
  | .inside name more nodes depth =>
    nodes.flatMap fun n => trace planner scope (scopes ++ name :: more) n depth

variable {planner : Planner ρ} {scope : Scope} {scopes : List String} {depth : Nat}

theorem trace_of_scopes (h : scope.limits.maxScopeDepth < scopes.length) (n : Node) (depth : Nat) :
    trace planner scope scopes n depth = [.truncated] := by
  rw [trace, if_pos h]

theorem trace_of_depth (h : scope.limits.maxTreeDepth < depth) (n : Node) :
    trace planner scope scopes n depth = [.truncated] := by
  rw [trace, if_pos h]
  split
  · rfl
  · rfl

theorem trace_eq (hscopes : scopes.length ≤ scope.limits.maxScopeDepth)
    (hdepth : depth ≤ scope.limits.maxTreeDepth) (n : Node) :
    trace planner scope scopes n depth =
      (planner scope scopes n depth).steps.flatMap (stepEvents planner scope scopes) ++
        if (planner scope scopes n depth).descend then
          n.namedChildren.flatMap (trace planner scope scopes · (depth + 1))
        else [] := by
  rw [trace, if_neg (Nat.not_lt_of_le hscopes), if_neg (Nat.not_lt_of_le hdepth)]
  have hsteps : ((planner scope scopes n depth).steps.flatMap fun step =>
      match step with
      | .record item => [Event.record item]
      | .skipped => [.skipped]
      | .truncated => [.truncated]
      | .inside name more nodes depth =>
        nodes.flatMap fun n => trace planner scope (scopes ++ name :: more) n depth) =
      (planner scope scopes n depth).steps.flatMap (stepEvents planner scope scopes) := by
    congr 1
  simp only [hsteps]
  split
  · simp
  · simp

theorem visit_of_scopes (h : scope.limits.maxScopeDepth < scopes.length) (n : Node) (depth : Nat) :
    visit planner scope scopes n depth = CountM.truncatedSubtree := by
  rw [visit, Scope.enterScope, dif_neg (Nat.not_le_of_lt h)]

theorem visit_eq (h : scopes.length ≤ scope.limits.maxScopeDepth) (n : Node) (depth : Nat) :
    visit planner scope scopes n depth = (do
      if ← scope.enter depth then
        let plan := planner scope scopes n depth
        plan.steps.forM (perform planner scope scopes)
        if plan.descend then
          n.namedChildren.forM fun c => visit planner scope scopes c (depth + 1)) := by
  have hwalk (n : Node) (depth : Nat) : visit planner scope scopes n depth =
      scope.walk n depth fun n depth => do
        (planner scope scopes n depth).steps.forM (perform planner scope scopes)
        return (planner scope scopes n depth).descend := by
    rw [visit, Scope.enterScope, dif_pos h]
    congr 1
  rw [hwalk, Scope.walk_eq]
  simp only [hwalk, bind_assoc, pure_bind]

theorem emits_visit (planner : Planner ρ) (scope : Scope) (scopes : List String) (n : Node)
    (depth : Nat) :
    Emits (visit planner scope scopes n depth) (trace planner scope scopes n depth) := by
  by_cases hscopes : scope.limits.maxScopeDepth < scopes.length
  · rw [visit_of_scopes hscopes, trace_of_scopes hscopes]
    exact emits_truncated
  rw [Nat.not_lt] at hscopes
  rw [visit_eq hscopes, Scope.enter]
  by_cases hdepth : scope.limits.maxTreeDepth < depth
  · rw [trace_of_depth hdepth, if_pos hdepth]
    exact emits_truncated
  rw [trace_eq hscopes (Nat.le_of_not_lt hdepth), if_neg hdepth]
  simp only [liftM_pure, pure_bind, ↓reduceIte]
  apply emits_bind
  · apply emits_forM
    intro step _
    cases step with
    | record item => exact emits_record item
    | skipped => exact emits_skipped
    | truncated => exact emits_truncated
    | inside name more nodes depth =>
      apply emits_forM
      intro m _
      exact emits_visit planner scope (scopes ++ name :: more) m depth
  · split
    · apply emits_forM
      intro c hc
      exact emits_visit planner scope scopes c (depth + 1)
    · exact emits_pure
termination_by (scope.limits.maxScopeDepth + 1 - scopes.length, n.size)
decreasing_by
  · apply Prod.Lex.left
    simp only [List.length_append, List.length_cons]
    omega
  · apply Prod.Lex.right
    exact Node.size_lt_of_mem_namedChildren hc

/--
The events of the walks from the given nodes.
-/
def traceAll (planner : Planner ρ) (scope : Scope) (nodes : List Node) : List (Event ρ) :=
  nodes.flatMap (trace planner scope [] · 0)

theorem run_declarations (planner : Planner ρ) (scope : Scope) (nodes : List Node) (f : Fallbacks) :
    (declarations planner scope nodes).run f =
      (recorded (traceAll planner scope nodes), f + counted (traceAll planner scope nodes)) := by
  have h : Emits (nodes.forM fun n => visit planner scope [] n 0)
      (traceAll planner scope nodes) := by
    apply emits_forM
    intro n _
    apply emits_visit
  unfold declarations
  rw [StateT.run_bind, h #[] f, Array.empty_append]
  rfl

section Collected

variable {β : Type}

/--
What `p` selects among the items that are recorded from `n` on.
-/
def collected (p : ρ → Option β) (planner : Planner ρ) (scope : Scope) (scopes : List String)
    (n : Node) (depth : Nat) : List β :=
  (recorded (trace planner scope scopes n depth)).filterMap p

/--
What `p` selects among the items that a step records.
-/
def collectedBy (p : ρ → Option β) (planner : Planner ρ) (scope : Scope) (scopes : List String) :
    Step ρ → List β
  | .record item => (p item).toList
  | .skipped => []
  | .truncated => []
  | .inside name more nodes depth =>
    nodes.flatMap fun n => collected p planner scope (scopes ++ name :: more) n depth

variable (p : ρ → Option β)

theorem filterMap_recorded_flatMap {α : Type} (as : List α) (events : α → List (Event ρ)) :
    (recorded (as.flatMap events)).filterMap p =
      as.flatMap fun a => (recorded (events a)).filterMap p := by
  induction as with
  | nil => rfl
  | cons a as ih =>
    rw [List.flatMap_cons, List.flatMap_cons, recorded_append, List.filterMap_append, ih]

theorem filterMap_recorded_stepEvents (step : Step ρ) :
    (recorded (stepEvents planner scope scopes step)).filterMap p =
      collectedBy p planner scope scopes step := by
  cases step with
  | record item =>
    cases h : p item with
    | none => simp [stepEvents, recorded, Event.item?, collectedBy, h]
    | some b => simp [stepEvents, recorded, Event.item?, collectedBy, h]
  | skipped => rfl
  | truncated => rfl
  | inside name more nodes depth => apply filterMap_recorded_flatMap

theorem collected_of_limits
    (h : ¬ (scopes.length ≤ scope.limits.maxScopeDepth ∧ depth ≤ scope.limits.maxTreeDepth))
    (n : Node) : collected p planner scope scopes n depth = [] := by
  unfold collected
  by_cases hscopes : scope.limits.maxScopeDepth < scopes.length
  · rw [trace_of_scopes hscopes]
    rfl
  · rw [trace_of_depth (by omega)]
    rfl

theorem collected_eq
    (h : scopes.length ≤ scope.limits.maxScopeDepth ∧ depth ≤ scope.limits.maxTreeDepth)
    (n : Node) :
    collected p planner scope scopes n depth =
      (planner scope scopes n depth).steps.flatMap (collectedBy p planner scope scopes) ++
        if (planner scope scopes n depth).descend then
          n.namedChildren.flatMap (collected p planner scope scopes · (depth + 1))
        else [] := by
  rw [collected, trace_eq h.1 h.2, recorded_append, List.filterMap_append,
    filterMap_recorded_flatMap]
  congr 1
  · congr 1
    funext step
    apply filterMap_recorded_stepEvents
  · split
    · apply filterMap_recorded_flatMap
    · rfl

theorem filterMap_declarations (planner : Planner ρ) (scope : Scope) (nodes : List Node)
    (f : Fallbacks) :
    ((declarations planner scope nodes).run f).1.filterMap p =
      nodes.flatMap (collected p planner scope [] · 0) := by
  rw [run_declarations]
  apply filterMap_recorded_flatMap

end Collected

end Polyglot.Extract
