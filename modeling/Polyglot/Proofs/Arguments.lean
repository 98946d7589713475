import Polyglot.Extract.Arguments
import Polyglot.Proofs.Counting

/-!
This module contains the normalization of one level of an argument, with the normalization of what
is nested in it as a parameter. What holds of the parts of an argument holds of the argument;
in particular, arguments are additive.
-/

namespace Polyglot.Extract

open CountM

/--
The property that an entry of an object stands for. `inner` normalizes the value of a pair.
-/
def property (inner : Node → CountM Argument) : ObjectEntry → CountM (String × Argument)
  | .pair key value => do return (key, ← inner value)
  | .shorthand name node => return (name, node.toArgument (.identifier name))
  | .unclassified node => do return (node.text, node.toArgument (← unknownKind))

def addProperty (inner : Node → CountM Argument) (properties : List (String × Argument))
    (entry : ObjectEntry) : CountM (List (String × Argument)) := do
  let p ← property inner entry
  return insertProperty p.1 p.2 properties

/--
The kind of an argument of the given shape. `inner` normalizes what is nested in it.
-/
def kindOfShape (inner : Node → CountM Argument) : ArgShape → CountM ArgumentKind
  | .string value => return .string value
  | .number literal =>
    match Text.numeral? literal with
    | some value => return .number value
    | none => unknownKind
  | .boolean value => return .boolean value
  | .null => return .unknown (some ArgumentKind.nullLabel)
  | .identifier name => return .identifier name
  | .object entries => do return .object (← entries.foldlM (addProperty inner) [])
  | .array items => do return .array (← items.mapM inner)
  | .keyword name value => do return .object [(name, ← inner value)]
  | .wrapped node => do return (← inner node).kind
  | .unclassified => unknownKind

theorem argumentAt_succ (g : Grammar) (levels : Nat) (n : Node) :
    argumentAt g (levels + 1) n = (do
      let kind ← kindOfShape (argumentAt g levels) (g.classifyArg n)
      return n.toArgument kind) := by
  rw [argumentAt]
  cases g.classifyArg n with
  | number literal =>
    simp only [kindOfShape]
    cases Text.numeral? literal with
    | none => rfl
    | some value => rfl
  | object entries =>
    simp only [kindOfShape, bind_assoc, pure_bind]
    congr 2
    funext properties entry
    cases entry with
    | pair key value => simp [addProperty, property]
    | shorthand name node => simp [addProperty, property]
    | unclassified node => simp [addProperty, property]
  | _ => simp [kindOfShape]

section Related

variable {R : ∀ {α : Type}, CountM α → CountM α → Prop} (hR : Congruence R)
  (hunknown : R unknownArg unknownArg)

include hR hunknown

section Inner

variable {k l : Node → CountM Argument} (h : ∀ n, R (k n) (l n))

include h

theorem rel_property (entry : ObjectEntry) : R (property k entry) (property l entry) := by
  cases entry with
  | pair key value => exact hR.bind_pure_rel (h value) _
  | shorthand name node => apply hR.pure_rel
  | unclassified node => exact hR.bind_pure_rel (hR.bind_pure_rel hunknown _) _

theorem rel_addProperty (properties : List (String × Argument)) (entry : ObjectEntry) :
    R (addProperty k properties entry) (addProperty l properties entry) :=
  hR.bind_pure_rel (rel_property hR hunknown h entry) _

theorem rel_kindOfShape (shape : ArgShape) : R (kindOfShape k shape) (kindOfShape l shape) := by
  cases shape with
  | number literal =>
    rw [kindOfShape, kindOfShape]
    split
    · apply hR.pure_rel
    · exact hR.bind_pure_rel hunknown _
  | object entries =>
    exact hR.bind_pure_rel (hR.foldlM_rel (rel_addProperty hR hunknown h) [] entries) _
  | array items => exact hR.bind_pure_rel (hR.mapM_rel h items) _
  | keyword name value => exact hR.bind_pure_rel (h value) _
  | wrapped node => exact hR.bind_pure_rel (h node) _
  | unclassified => exact hR.bind_pure_rel hunknown _
  | _ => apply hR.pure_rel

end Inner

theorem rel_argumentAt {g : Grammar} {k : Nat}
    (hlimit : ∀ n, R (argumentAt g 0 n) (argumentAt g k n)) (levels : Nat) (n : Node) :
    R (argumentAt g levels n) (argumentAt g (levels + k) n) := by
  induction levels generalizing n with
  | zero =>
    rw [Nat.zero_add]
    exact hlimit n
  | succ levels ih =>
    rw [Nat.add_right_comm, argumentAt_succ, argumentAt_succ]
    apply hR.bind_pure_rel
    exact rel_kindOfShape hR hunknown ih _

end Related

section Inner

variable {inner : Node → CountM Argument} (h : ∀ n, (inner n).Additive)

include h

theorem additive_property (entry : ObjectEntry) : (property inner entry).Additive :=
  rel_property congruence_additive additive_unknownArg (k := inner) (l := inner) h entry

theorem additive_addProperty (properties : List (String × Argument)) (entry : ObjectEntry) :
    (addProperty inner properties entry).Additive :=
  additive_bind_pure (additive_property h entry) _

theorem additive_kindOfShape (shape : ArgShape) : (kindOfShape inner shape).Additive :=
  rel_kindOfShape congruence_additive additive_unknownArg (k := inner) (l := inner) h shape

end Inner

theorem additive_argumentAt (g : Grammar) (levels : Nat) (n : Node) :
    (argumentAt g levels n).Additive := by
  apply rel_argumentAt congruence_additive additive_unknownArg (k := 0)
  intro n
  exact additive_bind_pure additive_depthLimitedArg _

theorem additive_argument (g : Grammar) (scope : Scope) (n : Node) :
    (argument g scope n).Additive :=
  additive_argumentAt g _ n

end Polyglot.Extract
