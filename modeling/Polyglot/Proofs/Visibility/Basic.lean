import Polyglot.Proofs.Declarations.Records
import Polyglot.Record.Linkage

/-!
This module contains what the languages share about the declarations at the top level of a file:
when a record is one for such a declaration, and how the walk comes to nodes outside all scopes.
-/

namespace Polyglot

/--
A function or a type that is declared at the top level of a file, with the node that its record is
for.
-/
structure TopLevel where
  node : Node
  isType : Bool
  name : String
  isPublic : Bool

theorem Node.mem_namedChildren_of_field {n c : Node} {name : String} (h : n.field? name = some c)
    (hnamed : c.isNamed) : c ∈ n.namedChildren :=
  List.mem_filter.2 ⟨List.mem_of_find?_eq_some h, hnamed⟩

theorem Binding.map_same_inj {names names' : List String} :
    names.map Binding.same = names'.map Binding.same ↔ names = names' :=
  List.map_inj_right fun _ _ h => congrArg Binding.imported h

namespace Extract

namespace Declared

def name : Declared → String
  | function _ decl => decl.name
  | type _ decl => decl.name

def isType : Declared → Bool
  | function _ _ => false
  | type _ _ => true

def isExported : Declared → Bool
  | function _ decl => decl.isExported
  | type _ decl => decl.isExported

/--
Whether a record is one for the given declaration.
-/
def IsFor (e : Declared) (d : TopLevel) : Prop := e.node = d.node ∧ e.isType = d.isType

end Declared

/--
A walk from the given nodes comes to `n` at this depth, inside no scope.
-/
def ComesTo {ρ : Type} (planner : Planner ρ) (scope : Scope) (nodes : List Node) (n : Node)
    (depth : Nat) : Prop :=
  trace planner scope [] n depth ⊆ traceAll planner scope nodes

namespace ComesTo

variable {ρ : Type} {planner : Planner ρ} {scope : Scope} {nodes : List Node} {n : Node}
  {depth : Nat}

theorem start (hn : n ∈ nodes) : ComesTo planner scope nodes n 0 :=
  Search.trace_subset_traceAll hn

variable (h : ComesTo planner scope nodes n depth) (hdepth : depth ≤ scope.limits.maxTreeDepth)

include h hdepth

theorem child (hdescend : (planner scope [] n depth).descend) {m : Node}
    (hm : m ∈ n.namedChildren) : ComesTo planner scope nodes m (depth + 1) := by
  intro event hevent
  apply h
  exact trace_subset_of_descend_of_le (Nat.zero_le _) hdepth hdescend hm hevent

theorem items_subset :
    (planner scope [] n depth).items ⊆ recorded (traceAll planner scope nodes) := by
  intro item hitem
  rw [mem_recorded]
  apply h
  exact record_mem_trace_of_le (Nat.zero_le _) hdepth hitem

end ComesTo

end Extract

end Polyglot
