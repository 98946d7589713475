import Polyglot.Extract.Facts
import Polyglot.Proofs.Chains.Attempts
import Polyglot.Proofs.Declarations.Trace

/-!
This module contains what the name of a file means for an extraction: it is copied into the records
and has no other effect. The facts of a file under another name are its facts with the name
replaced.
-/

namespace Polyglot

def CallChain.inFile (file : String) (c : CallChain) : CallChain := { c with file }

def FunctionDecl.inFile (file : String) (decl : FunctionDecl) : FunctionDecl := { decl with file }

def ClassDecl.inFile (file : String) (decl : ClassDecl) : ClassDecl := { decl with file }

def Declarations.inFile (file : String) (d : Declarations) : Declarations where
  functions := d.functions.map (·.inFile file)
  classes := d.classes.map (·.inFile file)

/--
The same contents of a file with the given name.
-/
def Contents.inFile (file : String) (contents : Contents) : Contents :=
  { contents with
    callChains := contents.callChains.map (·.inFile file)
    functions := contents.functions.map (·.inFile file)
    classes := contents.classes.map (·.inFile file) }

def Facts.inFile (file : String) (facts : Facts) : Facts :=
  { facts with toContents := facts.toContents.inFile file }

def Extract.Declared.inFile (file : String) : Extract.Declared → Extract.Declared
  | function node decl => function node (decl.inFile file)
  | type node decl => type node (decl.inFile file)

def Rust.Item.inFile (file : String) : Rust.Item → Rust.Item
  | function node decl => function node (decl.inFile file)
  | type node decl path => type node (decl.inFile file) path
  | trait node decl => trait node (decl.inFile file)
  | impl node block => impl node block

/--
The same limits for a file with the given name.
-/
def Scope.inFile (scope : Scope) (file : String) : Scope := { scope with file }

namespace Extract

open CountM

variable (file : String) (scope : Scope)

section Chains

variable (g : Grammar) (n : Node)

theorem callChain_inFile :
    callChain g (scope.inFile file) n = (do
      let chain ← callChain g scope n
      return chain.map (·.inFile file)) := by
  have hargs : ∀ m, argument g (scope.inFile file) m = argument g scope m := by
    intro m
    rfl
  have hwalk : walkChain g (scope.inFile file) scope.limits.maxChainDepth n [] =
      walkChain g scope scope.limits.maxChainDepth n [] :=
    rel_walkChain congruence_eq hargs rfl (k := 0) (fun _ _ => rfl) _ n []
  rw [callChain_eq, callChain_eq, bind_assoc, ← hwalk]
  simp only [pure_bind]
  congr 1
  funext found
  cases found with
  | none => rfl
  | some found =>
    obtain ⟨receiver, segments⟩ := found
    cases segments with
    | nil => rfl
    | cons segment segments => rfl

theorem cost_callChain_inFile :
    (callChain g (scope.inFile file) n).cost = (callChain g scope n).cost := by
  rw [callChain_inFile, cost_bind (additive_callChain g scope n) fun _ => additive_pure _,
    cost_pure, add_zero]

theorem chainAt?_inFile :
    chainAt? g (scope.inFile file) n = (chainAt? g scope n).map (·.inFile file) := by
  unfold chainAt?
  rw [callChain_inFile, value_bind_pure (additive_callChain g scope n), Option.filter_map]
  rfl

theorem attempts_inFile (depth : Nat) :
    attempts g (scope.inFile file) n depth = attempts g scope n depth := by
  induction n using namedInduction generalizing depth with
  | step n ih =>
    have hbelow : n.namedChildren.flatMap (attempts g (scope.inFile file) · (depth + 1)) =
        n.namedChildren.flatMap (attempts g scope · (depth + 1)) := by
      apply List.flatMap_congr
      intro c hc
      exact ih c hc (depth + 1)
    rw [attempts_eq, attempts_eq, chainAt?_inFile, hbelow, Option.isSome_map]
    rfl

theorem cutOff_inFile (depth : Nat) :
    (scope.inFile file).cutOff n depth = scope.cutOff n depth := by
  induction n using namedInduction generalizing depth with
  | step n ih =>
    have hbelow : n.namedChildren.flatMap ((scope.inFile file).cutOff · (depth + 1)) =
        n.namedChildren.flatMap (scope.cutOff · (depth + 1)) := by
      apply List.flatMap_congr
      intro c hc
      exact ih c hc (depth + 1)
    rw [Scope.cutOff_eq, Scope.cutOff_eq, hbelow]
    rfl

theorem run_callChains_inFile (f : Fallbacks) :
    (callChains g (scope.inFile file) n).run f =
      (((callChains g scope n).run f).1.map (·.inFile file), ((callChains g scope n).run f).2) := by
  rw [run_callChains_attempts, run_callChains_attempts, attempts_inFile, cutOff_inFile]
  simp only [chainsAt, costAt, chainAt?_inFile, cost_callChain_inFile, List.map_filterMap,
    Option.map_map, Function.comp_def]

end Chains

section Declarations

variable {ρ : Type}

def Step.map (φ : ρ → ρ) : Step ρ → Step ρ
  | record item => record (φ item)
  | skipped => skipped
  | truncated => truncated
  | inside name more nodes depth => inside name more nodes depth

def Plan.map (φ : ρ → ρ) (plan : Plan ρ) : Plan ρ :=
  { plan with steps := plan.steps.map (·.map φ) }

def Event.map (φ : ρ → ρ) : Event ρ → Event ρ
  | record item => record (φ item)
  | skipped => skipped
  | truncated => truncated

theorem recorded_map (φ : ρ → ρ) (events : List (Event ρ)) :
    recorded (events.map (Event.map φ)) = (recorded events).map φ := by
  induction events with
  | nil => rfl
  | cons event events ih =>
    cases event with
    | record item => exact congrArg (φ item :: ·) ih
    | skipped => exact ih
    | truncated => exact ih

theorem counted_map (φ : ρ → ρ) (events : List (Event ρ)) :
    counted (events.map (Event.map φ)) = counted events := by
  unfold counted
  rw [List.map_map]
  congr 2
  funext event
  cases event with
  | _ => rfl

variable {file scope} {planner : Planner ρ} {φ : ρ → ρ}
  (hplan : ∀ scopes n depth, planner (scope.inFile file) scopes n depth =
    (planner scope scopes n depth).map φ)

include hplan

/--
A walk with mapped plans is the walk with mapped records.
-/
theorem trace_map (scopes : List String) (n : Node) (depth : Nat) :
    trace planner (scope.inFile file) scopes n depth =
      (trace planner scope scopes n depth).map (Event.map φ) := by
  have hlimits : (scope.inFile file).limits = scope.limits := rfl
  by_cases hscopes : scope.limits.maxScopeDepth < scopes.length
  · rw [trace_of_scopes hscopes, trace_of_scopes (by rwa [hlimits])]
    rfl
  by_cases hdepth : scope.limits.maxTreeDepth < depth
  · rw [trace_of_depth hdepth, trace_of_depth (by rwa [hlimits])]
    rfl
  rw [trace_eq (by rw [hlimits]; omega) (by rw [hlimits]; omega), trace_eq (by omega) (by omega),
    hplan, List.map_append, List.map_flatMap]
  congr 1
  · rw [Plan.map, List.flatMap_map]
    apply List.flatMap_congr
    intro step _
    cases step with
    | inside name more nodes depth =>
      simp only [Step.map, stepEvents, List.map_flatMap]
      apply List.flatMap_congr
      intro m _
      exact trace_map (scopes ++ name :: more) m depth
    | _ => rfl
  · rw [Plan.map]
    split
    · rw [List.map_flatMap]
      apply List.flatMap_congr
      intro c hc
      exact trace_map scopes c (depth + 1)
    · rfl
termination_by (scope.limits.maxScopeDepth + 1 - scopes.length, n.size)
decreasing_by
  · apply Prod.Lex.left
    simp only [List.length_append, List.length_cons]
    omega
  · apply Prod.Lex.right
    exact Node.size_lt_of_mem_namedChildren hc

theorem run_declarations_map (nodes : List Node) (f : Fallbacks) :
    (declarations planner (scope.inFile file) nodes).run f =
      (((declarations planner scope nodes).run f).1.map φ,
        ((declarations planner scope nodes).run f).2) := by
  have htrace : traceAll planner (scope.inFile file) nodes =
      (traceAll planner scope nodes).map (Event.map φ) := by
    unfold traceAll
    rw [List.map_flatMap]
    apply List.flatMap_congr
    intro n _
    exact trace_map hplan [] n 0
  rw [run_declarations, run_declarations, htrace, recorded_map, counted_map]

end Declarations

theorem Declared.assemble_inFile (items : List Declared) :
    assemble (items.map (·.inFile file)) = (assemble items).inFile file := by
  unfold assemble Declarations.inFile
  simp only [List.filterMap_map, List.map_filterMap, Declarations.mk.injEq]
  constructor
  · congr 1
    funext item
    cases item with
    | _ => rfl
  · congr 1
    funext item
    cases item with
    | _ => rfl

end Extract

section Plans

open Extract

variable (file : String) (scope : Scope) (scopes : List String)

namespace Python

theorem memberSteps_inFile (className : String) (depth : Nat) (n : Node) :
    memberSteps (scope.inFile file) scopes className depth n =
      (memberSteps scope scopes className depth n).map (·.map (·.inFile file)) := by
  unfold memberSteps methodSteps
  split
  · cases (undecorated n).fieldText? "name" with
    | none => rfl
    | some name => rfl
  · rfl

theorem plan_inFile (n : Node) (depth : Nat) :
    plan (scope.inFile file) scopes n depth =
      (plan scope scopes n depth).map (·.inFile file) := by
  unfold plan
  split
  · unfold functionSteps
    cases n.fieldText? "name" with
    | none => rfl
    | some name => rfl
  · unfold classSteps
    cases n.fieldText? "name" with
    | none => rfl
    | some name =>
      simp only [Plan.map, funext (memberSteps_inFile file scope scopes name (depth + 1)),
        List.map_append, List.map_flatMap]
      rfl
  · rfl

end Python

namespace TypeScript

theorem classSteps_inFile (n : Node) (boundName : Option String) (isExported : Bool)
    (depth : Nat) :
    classSteps (scope.inFile file) scopes n boundName isExported depth =
      (classSteps scope scopes n boundName isExported depth).map (·.map (·.inFile file)) := by
  have hmember (owner : String) (m : Member) :
      memberSteps (scope.inFile file) scopes owner depth m =
        (memberSteps scope scopes owner depth m).map (·.map (·.inFile file)) := by
    unfold memberSteps
    cases m.name with
    | none => rfl
    | some name => rfl
  unfold classSteps
  cases (n.fieldText? "name").or boundName with
  | none => rfl
  | some name =>
    simp only [funext (hmember name), List.map_append, List.map_flatMap]
    rfl

theorem interfaceSteps_inFile (n : Node) :
    interfaceSteps (scope.inFile file) scopes n =
      (interfaceSteps scope scopes n).map (·.map (·.inFile file)) := by
  have hsignature (owner : String) (m : Node) :
      signatureSteps (scope.inFile file) scopes owner m =
        (signatureSteps scope scopes owner m).map (·.map (·.inFile file)) := by
    unfold signatureSteps
    cases m.fieldText? "name" with
    | none => rfl
    | some name => rfl
  unfold interfaceSteps
  cases n.fieldText? "name" with
  | none => rfl
  | some name =>
    simp only [funext (hsignature name), List.map_append, List.map_flatMap]
    rfl

theorem declaratorPlan_inFile (n : Node) (depth : Nat) :
    declaratorPlan (scope.inFile file) scopes n depth =
      (declaratorPlan scope scopes n depth).map (·.inFile file) := by
  unfold declaratorPlan
  cases n.field? "name" with
  | none => rfl
  | some name =>
    cases n.field? "value" with
    | none => rfl
    | some value =>
      simp only
      split
      · rfl
      · split
        · rw [classSteps_inFile]
          rfl
        · rfl

theorem plan_inFile (n : Node) (depth : Nat) :
    plan (scope.inFile file) scopes n depth =
      (plan scope scopes n depth).map (·.inFile file) := by
  have hclass : (⟨classSteps (scope.inFile file) scopes n none (isExportWrapped n) depth, false⟩ :
        Plan Declared) =
      Plan.map (·.inFile file)
        ⟨classSteps scope scopes n none (isExportWrapped n) depth, false⟩ := by
    rw [classSteps_inFile]
    rfl
  unfold plan
  split
  case h_1 | h_2 =>
    cases n.fieldText? "name" with
    | none => rfl
    | some name => rfl
  case h_3 => exact declaratorPlan_inFile file scope scopes n depth
  case h_4 | h_5 | h_6 => exact hclass
  case h_7 =>
    rw [interfaceSteps_inFile]
    rfl
  case h_8 =>
    unfold enumSteps
    cases n.fieldText? "name" with
    | none => rfl
    | some name => rfl
  case h_9 => rfl

end TypeScript

namespace Rust

theorem members_inFile (outer : String) (owner : Owner) (n : Node) (depth : Nat) :
    members (scope.inFile file) scopes outer owner n depth =
      ((members scope scopes outer owner n depth).1.map (·.map (·.inFile file)),
        (members scope scopes outer owner n depth).2) := by
  have hmember (m : Node) :
      memberSteps (scope.inFile file) scopes outer owner depth m =
        (memberSteps scope scopes outer owner depth m).map (·.map (·.inFile file)) := by
    unfold memberSteps
    cases m.fieldText? "name" with
    | none => rfl
    | some name => rfl
  have hlimits : (scope.inFile file).limits = scope.limits := rfl
  unfold members
  cases n.field? "body" with
  | none => rfl
  | some body =>
    simp only [hlimits]
    split
    · rfl
    · simp only [funext hmember, List.map_flatMap]

theorem implSteps_inFile (n : Node) (depth : Nat) :
    implSteps (scope.inFile file) scopes n depth =
      (implSteps scope scopes n depth).map (·.map (·.inFile file)) := by
  unfold implSteps
  cases n.fieldText? "type" with
  | none => rfl
  | some type =>
    simp only [members_inFile, List.map_append]
    rfl

theorem traitSteps_inFile (n : Node) (depth : Nat) :
    traitSteps (scope.inFile file) scopes n depth =
      (traitSteps scope scopes n depth).map (·.map (·.inFile file)) := by
  unfold traitSteps
  cases n.fieldText? "name" with
  | none => rfl
  | some name =>
    simp only [members_inFile, List.map_append]
    rfl

theorem plan_inFile (n : Node) (depth : Nat) :
    plan (scope.inFile file) scopes n depth =
      (plan scope scopes n depth).map (·.inFile file) := by
  unfold plan
  split
  case h_1 | h_2 =>
    unfold functionSteps
    cases n.fieldText? "name" with
    | none => rfl
    | some name => rfl
  case h_3 =>
    rw [implSteps_inFile]
    rfl
  case h_4 =>
    rw [traitSteps_inFile]
    rfl
  case h_5 | h_6 | h_7 =>
    unfold typeSteps
    cases n.fieldText? "name" with
    | none => rfl
    | some name => rfl
  case h_8 =>
    unfold moduleSteps
    cases n.fieldText? "name" with
    | none => rfl
    | some name => rfl
  case h_9 => rfl

theorem joinBlocks_inFile (paths : List String) (blocks : List ImplBlock) (path : String)
    (c : ClassDecl) :
    joinBlocks paths blocks path (c.inFile file) =
      (joinBlocks paths blocks path c).inFile file := by
  unfold joinBlocks
  induction blocks.filter (·.joins paths path) generalizing c with
  | nil => rfl
  | cons block blocks ih =>
    have hjoin : ImplBlock.joinTo (c.inFile file) block =
        (ImplBlock.joinTo c block).inFile file := by
      unfold ImplBlock.joinTo
      cases block.traitName with
      | none => rfl
      | some t =>
        simp only [apply_ite (ClassDecl.inFile file)]
        rfl
    rw [List.foldl_cons, List.foldl_cons, hjoin, ih]

theorem assemble_inFile (items : List Item) :
    assemble (items.map (·.inFile file)) = (assemble items).inFile file := by
  have hpaths : (items.map (·.inFile file)).filterMap Item.path? = items.filterMap Item.path? := by
    rw [List.filterMap_map]
    congr 1
    funext item
    cases item with
    | _ => rfl
  have himpls : (items.map (·.inFile file)).filterMap Item.impl? = items.filterMap Item.impl? := by
    rw [List.filterMap_map]
    congr 1
    funext item
    cases item with
    | _ => rfl
  unfold assemble Declarations.inFile
  rw [hpaths, himpls]
  simp only [List.filterMap_map, List.map_filterMap, Declarations.mk.injEq]
  constructor
  · congr 1
    funext item
    cases item with
    | _ => rfl
  · congr 1
    funext item
    cases item with
    | type node decl path => exact congrArg some (joinBlocks_inFile file _ _ path decl)
    | _ => rfl

end Rust

end Plans

theorem Language.run_declarations_inFile (language : Language) (file : String) (scope : Scope)
    (root : Node) (f : Fallbacks) :
    (language.declarations (scope.inFile file) root).run f =
      (((language.declarations scope root).run f).1.inFile file,
        ((language.declarations scope root).run f).2) := by
  have hdeclared {planner : Extract.Planner Extract.Declared}
      (hplan : ∀ scopes n depth, planner (scope.inFile file) scopes n depth =
        (planner scope scopes n depth).map (·.inFile file)) :
      (Extract.Declared.assemble <$>
          Extract.declarations planner (scope.inFile file) [root]).run f =
        let run := (Extract.Declared.assemble <$> Extract.declarations planner scope [root]).run f
        (run.1.inFile file, run.2) := by
    rw [StateT.run_map, StateT.run_map, Extract.run_declarations_map hplan]
    exact Prod.ext (Extract.Declared.assemble_inFile file _) rfl
  cases language with
  | rust =>
    unfold declarations Rust.declarations
    rw [StateT.run_bind, StateT.run_bind,
      Extract.run_declarations_map (Rust.plan_inFile file scope)]
    exact Prod.ext (Rust.assemble_inFile file _) rfl
  | typescript => exact hdeclared (TypeScript.plan_inFile file scope)
  | javascript => exact hdeclared (TypeScript.plan_inFile file scope)
  | python => exact hdeclared (Python.plan_inFile file scope)

/--
The name of a file shows in its facts, and nothing else of them depends on it.
-/
theorem Facts.ofTree_inFile (language : Language) (file : String) (scope : Scope) (root : Node) :
    ofTree language (scope.inFile file) root = (ofTree language scope root).inFile file := by
  have hchains := Extract.run_callChains_inFile file scope language.grammar root 0
  have hdecls := language.run_declarations_inFile file scope root
  have hrun : (ofTree.extraction language (scope.inFile file) root).run 0 =
      (((ofTree.extraction language scope root).run 0).1.inFile file,
        ((ofTree.extraction language scope root).run 0).2) := by
    unfold ofTree.extraction
    rw [StateT.run_bind, StateT.run_bind, hchains]
    change StateT.run (_ >>= _) _ = _
    rw [StateT.run_bind, hdecls]
    rfl
  unfold ofTree
  change (fun r : Facts × Fallbacks => { r.1 with fallbacks := r.2 })
    ((ofTree.extraction language (scope.inFile file) root).run 0) = _
  rw [hrun]
  rfl

end Polyglot
