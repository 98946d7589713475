import Polyglot.Proofs.Declarations

/-!
This module contains the limit on the nesting of named scopes. The limit is asked where the search
comes to a node on its own, but not for the members of a type, which are found together with the
type. A method can therefore stand one scope deeper than a function.
-/

namespace Polyglot

/--
The same scope with another limit on the nesting.
-/
def Scope.nestedUpTo (scope : Scope) (k : Nat) : Scope :=
  { scope with limits := { scope.limits with maxScopeDepth := k } }

namespace Extract

/--
Whether a function is within the limit, if that of a method is the one of its type.
-/
def FunctionSite.within (k : Nat) (e : FunctionSite) : Bool :=
  e.scopes.length ≤ k + e.decl.isMethod.toNat

namespace Rules

/--
How the limit on the nesting applies to a role.
-/
inductive Standing where
  | guarded
  /-- A block, whose nodes are looked at on their own. -/
  | free
  /-- A part of a declaration that opened so many scopes around it. -/
  | part (opened : Nat)

/--
Whether a node that is looked at in a role of this standing is within the limit.
-/
def Standing.limited : Standing → Bool
  | free => false
  | guarded | part _ => true

def Standing.opened : Standing → Nat
  | guarded | free => 0
  | part opened => opened

theorem exists_of_ite_map {α β : Type} {c : Prop} [Decidable c] {o : Option α} {f : α → β} {b : β}
    (h : (if c then o.map f else none) = some b) : ∃ a, o = some a ∧ f a = b := by
  obtain ⟨_, h⟩ := Option.ite_none_right_eq_some.1 h
  exact Option.map_eq_some_iff.1 h

variable {κ : Type}

/--
The limit is asked for guarded roles only, it changes nothing but whether a node is looked at, and a
part of a declaration has the scopes around it that the declaration has and those that it opens.
-/
structure Guarded (rules : Rules κ) (standing : κ → Standing) : Prop where
  admits_iff (limits : Limits) (role : κ) (nesting depth : Nat) :
    rules.admits limits role nesting depth ↔
      (standing role = .guarded → nesting ≤ limits.maxScopeDepth) ∧
        rules.admits { limits with maxScopeDepth := nesting } role nesting depth
  declared? (scope : Scope) (k : Nat) (role : κ) (n : Node) :
    rules.declared? (scope.nestedUpTo k) role n = rules.declared? scope role n
  isMethod {scope : Scope} {role : κ} {n : Node} {decl : FunctionDecl}
    (h : rules.declared? scope role n = some decl) :
    (standing role).limited ∧ decl.isMethod.toNat = (standing role).opened
  part {role : κ} {depth : Nat} {n c : Node} {p : κ × Nat} {opened : Nat}
    (h : rules.role? role depth n c = some p) (hpart : standing p.1 = .part opened) :
    (standing role).limited ∧
      opened = (standing role).opened + (rules.opened? role n).toList.length

namespace Guarded

variable {rules : Rules κ} {standing : κ → Standing} (hrules : rules.Guarded standing)
  {scope : Scope} {role : κ} {scopes : List String} {n : Node} {depth k : Nat}

include hrules

theorem opened_le {c : Node} {p : κ × Nat} (h : rules.role? role depth n c = some p) :
    (standing p.1).opened ≤ (standing role).opened + (rules.opened? role n).toList.length := by
  cases hpart : standing p.1 with
  | guarded => exact Nat.zero_le _
  | free => exact Nat.zero_le _
  | part opened =>
    have hopened := (hrules.part h hpart).2
    exact Nat.le_of_eq hopened

theorem function?_nestedUpTo :
    rules.function? (scope.nestedUpTo k) role scopes n = rules.function? scope role scopes n := by
  rw [function?, function?, hrules.declared?]

theorem isMethod_of_function? {decl : FunctionDecl}
    (h : rules.function? scope role scopes n = some decl) :
    (standing role).limited ∧ decl.isMethod.toNat = (standing role).opened := by
  rw [function?, Option.map_eq_some_iff] at h
  obtain ⟨decl, hdecl, rfl⟩ := h
  exact (hrules.isMethod hdecl : _)

/--
No function stands further out than the declaration at which the search begins.
-/
theorem length_le_of_mem_traverse {e : FunctionSite}
    (h : e ∈ rules.traverse scope role scopes n depth) :
    scopes.length + e.decl.isMethod.toNat ≤ e.scopes.length + (standing role).opened := by
  induction n using Node.sizeInduction generalizing role scopes depth with
  | step n ih =>
    rw [traverse_eq] at h
    split at h
    · rw [List.mem_append, List.mem_flatMap] at h
      rcases h with h | ⟨c, hc, h⟩
      · rw [Option.mem_toList, Option.map_eq_some_iff] at h
        obtain ⟨decl, hdecl, rfl⟩ := h
        have hmethod := (hrules.isMethod_of_function? hdecl).2
        simp only
        omega
      · cases hrole : rules.role? role depth n c with
        | none =>
          rw [hrole] at h
          cases h
        | some p =>
          rw [hrole] at h
          have hbelow := ih c (Node.size_lt_of_mem_children hc) h
          have hopened := hrules.opened_le hrole
          rw [List.length_append] at hbelow
          omega
    · cases h

theorem admits_nestedUpTo (hk : k ≤ scope.limits.maxScopeDepth)
    (hguarded : standing role = .guarded → scopes.length ≤ k) :
    rules.admits (scope.nestedUpTo k).limits role scopes.length depth =
      rules.admits scope.limits role scopes.length depth := by
  rw [Bool.eq_iff_iff, hrules.admits_iff, hrules.admits_iff scope.limits]
  apply and_congr_left
  intro _
  constructor
  · intro _ hrole
    exact (hguarded hrole).trans hk
  · intro _
    exact hguarded

theorem traverse_nestedUpTo_of_lt (hrole : standing role = .guarded) (hlt : k < scopes.length) :
    rules.traverse (scope.nestedUpTo k) role scopes n depth =
      (rules.traverse scope role scopes n depth).filter (·.within k) := by
  -- The lower limit stops the search here, and all that is below is beyond this limit.
  rw [traverse_eq, if_neg, eq_comm, List.filter_eq_nil_iff]
  · intro e he hwithin
    have hbelow := hrules.length_le_of_mem_traverse he
    have hwithin : e.scopes.length ≤ k + e.decl.isMethod.toNat := of_decide_eq_true hwithin
    rw [hrole, Standing.opened] at hbelow
    omega
  · intro hadmits
    have hle : scopes.length ≤ k := ((hrules.admits_iff _ _ _ _).1 hadmits).1 hrole
    omega

/--
With a lower limit the search finds the functions that are within this limit.
-/
theorem traverse_nestedUpTo (hk : k ≤ scope.limits.maxScopeDepth)
    (hpart : ∀ opened, standing role = .part opened → scopes.length ≤ k + opened) :
    rules.traverse (scope.nestedUpTo k) role scopes n depth =
      (rules.traverse scope role scopes n depth).filter (·.within k) := by
  induction n using Node.sizeInduction generalizing role scopes depth with
  | step n ih =>
    by_cases hguarded : standing role = .guarded → scopes.length ≤ k
    · have hlevel (hlimited : (standing role).limited) :
          scopes.length ≤ k + (standing role).opened := by
        cases hrole : standing role with
        | guarded => exact hguarded hrole
        | free =>
          rw [hrole] at hlimited
          cases hlimited
        | part opened => exact hpart opened hrole
      rw [traverse_eq, traverse_eq, hrules.admits_nestedUpTo hk hguarded]
      split
      · rw [List.filter_append, List.filter_flatMap, hrules.function?_nestedUpTo]
        congr 1
        · cases hdecl : rules.function? scope role scopes n with
          | none => rfl
          | some decl =>
            obtain ⟨hlimited, hmethod⟩ := hrules.isMethod_of_function? hdecl
            have hwithin : FunctionSite.within k ⟨n, scopes, decl⟩ := by
              have := hlevel hlimited
              apply decide_eq_true
              simp only
              omega
            rw [Option.map_some, Option.toList_some, List.filter_cons_of_pos hwithin,
              List.filter_nil]
        · apply List.flatMap_congr
          intro c hc
          cases hrole : rules.role? role depth n c with
          | none => rfl
          | some p =>
            apply ih c (Node.size_lt_of_mem_children hc)
            intro opened hopened
            obtain ⟨hlimited, hopened⟩ := hrules.part hrole hopened
            have := hlevel hlimited
            rw [List.length_append]
            omega
      · rfl
    · rw [Classical.not_imp] at hguarded
      exact hrules.traverse_nestedUpTo_of_lt hguarded.1 (Nat.lt_of_not_le hguarded.2)

end Guarded

end Rules

end Extract

namespace Python

open Extract Rules

def standing : Role → Standing
  | .code => .guarded
  | .block => .free
  | .classBody _ | .method _ | .decorated _ => .part 1

theorem standing_memberRole (className : String) (n : Node) {opened : Nat}
    (h : standing (memberRole className n) = .part opened) : opened = 1 := by
  unfold memberRole at h
  split at h
  case isTrue => cases h; rfl
  case isFalse =>
    split at h
    case isTrue => cases h; rfl
    case isFalse => cases h

theorem guarded_rules : rules.Guarded standing where
  admits_iff limits role nesting depth := by
    cases role <;> simp [rules, standing]
  declared? scope k role n := rfl
  isMethod {scope role n decl} h := by
    cases role with
    | code =>
      obtain ⟨name, _, rfl⟩ := exists_of_ite_map h
      exact ⟨rfl, rfl⟩
    | method className =>
      obtain ⟨name, _, rfl⟩ := Option.map_eq_some_iff.1 h
      exact ⟨rfl, rfl⟩
    | _ => cases h
  part {role depth n c p opened} h hpart := by
    cases role with
    | code =>
      simp only [rules] at h
      split at h
      case isTrue hfunction =>
        obtain ⟨name, _, rfl⟩ := exists_of_ite_map h
        cases hpart
      case isFalse hfunction =>
        split at h
        case isTrue hclass =>
          obtain ⟨name, hname, rfl⟩ := exists_of_ite_map h
          cases hpart
          have hopened : rules.opened? .code n = some name := by simp [rules, hclass, hname]
          rw [hopened]
          exact ⟨rfl, rfl⟩
        case isFalse hclass =>
          obtain ⟨_, ⟨⟩⟩ := Option.ite_none_right_eq_some.1 h
          cases hpart
    | block =>
      obtain ⟨_, ⟨⟩⟩ := Option.ite_none_right_eq_some.1 h
      cases hpart
    | classBody className =>
      obtain ⟨_, ⟨⟩⟩ := Option.ite_none_right_eq_some.1 h
      exact ⟨rfl, standing_memberRole className c hpart⟩
    | method className =>
      obtain ⟨name, _, rfl⟩ := exists_of_ite_map h
      cases hpart
    | decorated className =>
      obtain ⟨_, ⟨⟩⟩ := Option.ite_none_right_eq_some.1 h
      cases hpart
      exact ⟨rfl, rfl⟩

end Python

namespace Rust

open Extract Rules

def standing : Role → Standing
  | .code => .guarded
  | .block => .free
  | .memberBody _ | .member _ => .part 1

theorem guarded_rules : rules.Guarded standing where
  admits_iff limits role nesting depth := by
    cases role <;> simp [rules, standing]
  declared? scope k role n := rfl
  isMethod {scope role n decl} h := by
    cases role with
    | code =>
      obtain ⟨name, _, rfl⟩ := exists_of_ite_map h
      exact ⟨rfl, rfl⟩
    | member owner =>
      obtain ⟨name, _, rfl⟩ := Option.map_eq_some_iff.1 h
      exact ⟨rfl, rfl⟩
    | _ => cases h
  part {role depth n c p opened} h hpart := by
    cases role with
    | code =>
      simp only [rules] at h
      split at h
      case isTrue =>
        obtain ⟨name, _, rfl⟩ := exists_of_ite_map h
        cases hpart
      case isFalse hblock =>
        split at h
        case isTrue htrait =>
          obtain ⟨name, hname, rfl⟩ := exists_of_ite_map h
          cases hpart
          have hopened : rules.opened? .code n = some name := by simp [rules, htrait, hname]
          rw [hopened]
          exact ⟨rfl, rfl⟩
        case isFalse htrait =>
          split at h
          case isTrue himpl =>
            obtain ⟨type, htype, rfl⟩ := exists_of_ite_map h
            cases hpart
            have hopened : rules.opened? .code n = some (implScope n type) := by
              simp [rules, isFunction, himpl, htype]
            rw [hopened]
            exact ⟨rfl, rfl⟩
          case isFalse =>
            split at h
            case isTrue => cases h
            case isFalse =>
              obtain ⟨_, ⟨⟩⟩ := Option.ite_none_right_eq_some.1 h
              cases hpart
    | block =>
      obtain ⟨_, ⟨⟩⟩ := Option.ite_none_right_eq_some.1 h
      cases hpart
    | memberBody owner =>
      obtain ⟨_, h⟩ := Option.ite_none_right_eq_some.1 h
      obtain ⟨_, ⟨⟩⟩ := Option.ite_none_right_eq_some.1 h
      cases hpart
      exact ⟨rfl, rfl⟩
    | member owner =>
      obtain ⟨name, _, rfl⟩ := exists_of_ite_map h
      cases hpart

end Rust

namespace TypeScript

open Extract Rules

def standing : Role → Standing
  | .code => .guarded
  | .functionValue => .free
  | .boundClass _ => .part 0
  | .classBody _ | .member _ | .interfaceBody _ | .signature _ => .part 1

theorem guarded_rules : rules.Guarded standing where
  admits_iff limits role nesting depth := by
    cases role <;> simp [rules, standing]
  declared? scope k role n := rfl
  isMethod {scope role n decl} h := by
    cases role with
    | code =>
      simp only [rules] at h
      split at h
      · obtain ⟨name, _, rfl⟩ := Option.map_eq_some_iff.1 h
        exact ⟨rfl, rfl⟩
      · cases h
        exact ⟨rfl, rfl⟩
      · cases h
    | member className =>
      obtain ⟨m, _, h⟩ := Option.bind_eq_some_iff.1 h
      obtain ⟨name, _, rfl⟩ := Option.map_eq_some_iff.1 h
      exact ⟨rfl, rfl⟩
    | signature owner =>
      obtain ⟨name, _, rfl⟩ := Option.map_eq_some_iff.1 h
      exact ⟨rfl, rfl⟩
    | _ => cases h
  part {role depth n c p opened} h hpart := by
    cases role with
    | code =>
      simp only [rules] at h
      cases hconstruct : construct n with
      | function =>
        rw [hconstruct] at h
        obtain ⟨name, _, rfl⟩ := exists_of_ite_map h
        cases hpart
      | boundFunction name value =>
        rw [hconstruct] at h
        obtain ⟨_, ⟨⟩⟩ := Option.ite_none_right_eq_some.1 h
        cases hpart
      | boundClass name value =>
        rw [hconstruct] at h
        obtain ⟨_, ⟨⟩⟩ := Option.ite_none_right_eq_some.1 h
        cases hpart
        have hopened : rules.opened? .code n = none := by simp [rules, hconstruct]
        rw [hopened]
        exact ⟨rfl, rfl⟩
      | classType =>
        rw [hconstruct] at h
        obtain ⟨name, hname, rfl⟩ := exists_of_ite_map h
        cases hpart
        have hopened : rules.opened? .code n = some name := by simp [rules, hconstruct, hname]
        rw [hopened]
        exact ⟨rfl, rfl⟩
      | interface =>
        rw [hconstruct] at h
        obtain ⟨name, hname, rfl⟩ := exists_of_ite_map h
        cases hpart
        have hopened : rules.opened? .code n = some name := by simp [rules, hconstruct, hname]
        rw [hopened]
        exact ⟨rfl, rfl⟩
      | enum =>
        rw [hconstruct] at h
        cases h
      | other =>
        rw [hconstruct] at h
        obtain ⟨_, ⟨⟩⟩ := Option.ite_none_right_eq_some.1 h
        cases hpart
    | functionValue =>
      obtain ⟨_, ⟨⟩⟩ := Option.ite_none_right_eq_some.1 h
      cases hpart
    | boundClass name =>
      obtain ⟨name', hname, rfl⟩ := exists_of_ite_map h
      cases hpart
      have hopened : rules.opened? (.boundClass name) n = some name' := hname
      rw [hopened]
      exact ⟨rfl, rfl⟩
    | classBody className =>
      obtain ⟨m, _, rfl⟩ := exists_of_ite_map h
      cases hpart
      exact ⟨rfl, rfl⟩
    | member className =>
      simp only [rules] at h
      split at h
      case isTrue =>
        obtain ⟨name, _, rfl⟩ := exists_of_ite_map h
        cases hpart
      case isFalse =>
        obtain ⟨name, _, rfl⟩ := exists_of_ite_map h
        cases hpart
    | interfaceBody name =>
      obtain ⟨_, h⟩ := Option.ite_none_right_eq_some.1 h
      obtain ⟨_, ⟨⟩⟩ := Option.ite_none_right_eq_some.1 h
      cases hpart
      exact ⟨rfl, rfl⟩
    | signature name => cases h

end TypeScript

namespace Language

open Extract

variable (language : Language) (scope : Scope) (root : Node)

theorem traversal_nestedUpTo {k : Nat} (hk : k ≤ scope.limits.maxScopeDepth) :
    language.traversal (scope.nestedUpTo k) root =
      (language.traversal scope root).filter (·.within k) := by
  cases language with
  | rust =>
    apply Rust.guarded_rules.traverse_nestedUpTo hk
    intro _ hpart
    cases hpart
  | typescript =>
    apply TypeScript.guarded_rules.traverse_nestedUpTo hk
    intro _ hpart
    cases hpart
  | javascript =>
    apply TypeScript.guarded_rules.traverse_nestedUpTo hk
    intro _ hpart
    cases hpart
  | python =>
    apply Python.guarded_rules.traverse_nestedUpTo hk
    intro _ hpart
    cases hpart

theorem within_of_mem_traversal {e : FunctionSite} (he : e ∈ language.traversal scope root) :
    e.within scope.limits.maxScopeDepth := by
  have hself := language.traversal_nestedUpTo scope root (Nat.le_refl scope.limits.maxScopeDepth)
  exact List.filter_eq_self.1 hself.symm e he

/--
A function stands inside at most as many scopes as the limit allows, and a method inside one more.
A lower limit leaves out the functions beyond it and no others.
-/
theorem functions_up_to_scope_limit (f : Fallbacks) :
    let found := language.traversal scope root
    ((language.declarations scope root).run f).1.functions = found.map (·.decl) ∧
    (∀ e ∈ found,
      e.decl.qualifiedName = Text.qualify e.scopes e.decl.name language.grammar.separator ∧
      e.scopes.length ≤ scope.limits.maxScopeDepth + e.decl.isMethod.toNat) ∧
    ∀ k ≤ scope.limits.maxScopeDepth,
      ((language.declarations (scope.nestedUpTo k) root).run f).1.functions =
        (found.filter (·.within k)).map (·.decl) := by
  intro found
  refine ⟨language.functions_eq_map_traversal scope root f, ?_, ?_⟩
  · intro e he
    refine ⟨language.qualifiedName_traversal scope root he, ?_⟩
    exact of_decide_eq_true (language.within_of_mem_traversal scope root he)
  · intro k hk
    rw [functions_eq_map_traversal, traversal_nestedUpTo language scope root hk]

def traitBesideModule : Tree :=
  .node ⟨"source_file", true, false, none, 0, 51⟩ [
    .node ⟨"mod_item", true, false, none, 0, 51⟩ [
      .node ⟨"mod", false, false, none, 0, 3⟩ [],
      .node ⟨"identifier", true, false, some "name", 4, 5⟩ [],
      .node ⟨"declaration_list", true, false, some "body", 6, 51⟩ [
        .node ⟨"trait_item", true, false, none, 8, 29⟩ [
          .node ⟨"trait", false, false, none, 8, 13⟩ [],
          .node ⟨"type_identifier", true, false, some "name", 14, 15⟩ [],
          .node ⟨"declaration_list", true, false, some "body", 16, 29⟩ [
            .node ⟨"function_item", true, false, none, 18, 27⟩ [
              .node ⟨"fn", false, false, none, 18, 20⟩ [],
              .node ⟨"identifier", true, false, some "name", 21, 22⟩ [],
              .node ⟨"parameters", true, false, some "parameters", 22, 24⟩ [],
              .node ⟨"block", true, false, some "body", 25, 27⟩ []]]],
        .node ⟨"mod_item", true, false, none, 30, 49⟩ [
          .node ⟨"mod", false, false, none, 30, 33⟩ [],
          .node ⟨"identifier", true, false, some "name", 34, 35⟩ [],
          .node ⟨"declaration_list", true, false, some "body", 36, 49⟩ [
            .node ⟨"function_item", true, false, none, 38, 47⟩ [
              .node ⟨"fn", false, false, none, 38, 40⟩ [],
              .node ⟨"identifier", true, false, some "name", 41, 42⟩ [],
              .node ⟨"parameters", true, false, some "parameters", 42, 44⟩ [],
              .node ⟨"block", true, false, some "body", 45, 47⟩ []]]]]]]

def traitBesideModuleRoot : Node :=
  .root (.ofString "mod a \x7b trait T \x7b fn p() \x7b\x7d \x7d mod b \x7b fn q() \x7b\x7d \x7d \x7d")
    traitBesideModule

theorem traitBesideModule_up_to_scope_limit :
    let scope : Scope := ⟨"a.rs", { maxScopeDepth := 2 }⟩
    (rust.traversal scope traitBesideModuleRoot).map (·.scopes) = [["a", "T"], ["a", "b"]] ∧
    1 ≤ scope.limits.maxScopeDepth ∧
    ((declarations rust (scope.nestedUpTo 1) traitBesideModuleRoot).run 0).1.functions =
      ((rust.traversal scope traitBesideModuleRoot).filter (·.within 1)).map (·.decl) := by
  intro scope
  refine ⟨by decide +kernel, by decide, ?_⟩
  exact (functions_up_to_scope_limit rust scope traitBesideModuleRoot 0).2.2 1 (by decide)

/--
With a limit of one, a method in two scopes is found where a function in two scopes is not.
-/
theorem method_beyond_scope_limit :
    let scope : Scope := ⟨"a.rs", { maxScopeDepth := 1 }⟩
    let run := (declarations rust scope traitBesideModuleRoot).run 0
    run.1.functions.map (·.qualifiedName) = ["a::T::p"] ∧ run.2.truncatedSubtrees = 1 ∧
      (rust.traversal scope traitBesideModuleRoot).map (·.scopes) = [["a", "T"]] ∧
      ¬∀ e ∈ rust.traversal scope traitBesideModuleRoot,
        e.scopes.length ≤ scope.limits.maxScopeDepth := by
  decide +kernel

end Language

end Polyglot
