import Polyglot.Extract.Facts
import Polyglot.Proofs.Arguments

/-!
This module contains the fact that arguments are normalized from the inside: what stands above or
beside an argument in the file has no influence on it. A node is moved to another place by putting
its root below further frames, and everything that a grammar reads off an argument moves along.
-/

namespace Polyglot

namespace Node

/--
The node after its tree has been put below further frames.
-/
def graft (above : List Frame) (n : Node) : Node := { n with above := n.above ++ above }

section Graft

variable (above : List Frame) (n : Node)

@[simp]
theorem kind_graft : (n.graft above).kind = n.kind := rfl

@[simp]
theorem text_graft : (n.graft above).text = n.text := rfl

@[simp]
theorem toArgument_graft : (n.graft above).toArgument = n.toArgument := rfl

theorem place_graft (before ts : List Tree) :
    (n.graft above).place before ts = (n.place before ts).map (graft above) := by
  induction ts generalizing before with
  | nil => rfl
  | cons t ts ih =>
    rw [place, place, List.map_cons, ih]
    rfl

theorem children_graft : (n.graft above).children = n.children.map (graft above) :=
  place_graft above n [] n.tree.children

@[simp]
theorem namedChildren_graft :
    (n.graft above).namedChildren = n.namedChildren.map (graft above) := by
  rw [namedChildren, children_graft, List.filter_map]
  rfl

@[simp]
theorem namedChildrenExcept_graft (kinds : List String) :
    (n.graft above).namedChildrenExcept kinds =
      (n.namedChildrenExcept kinds).map (graft above) := by
  rw [namedChildrenExcept, namedChildren_graft, List.filter_map]
  rfl

@[simp]
theorem firstNamedChild?_graft :
    (n.graft above).firstNamedChild? = n.firstNamedChild?.map (graft above) := by
  rw [firstNamedChild?, namedChildren_graft, List.head?_map]
  rfl

@[simp]
theorem field?_graft (name : String) :
    (n.graft above).field? name = (n.field? name).map (graft above) := by
  rw [field?, children_graft, List.find?_map]
  rfl

@[simp]
theorem fieldText?_graft (name : String) :
    (n.graft above).fieldText? name = n.fieldText? name := by
  rw [fieldText?, field?_graft, Option.map_map]
  rfl

@[simp]
theorem hasChildKind_graft (kind : String) :
    (n.graft above).hasChildKind kind = n.hasChildKind kind := by
  rw [hasChildKind, children_graft, List.any_map]
  rfl

end Graft

end Node

def ObjectEntry.map (f : Node → Node) : ObjectEntry → ObjectEntry
  | pair key value => pair key (f value)
  | shorthand name node => shorthand name (f node)
  | unclassified node => unclassified (f node)

namespace ArgShape

def map (f : Node → Node) : ArgShape → ArgShape
  | object entries => object (entries.map (·.map f))
  | array items => array (items.map f)
  | keyword name value => keyword name (f value)
  | wrapped inner => wrapped (f inner)
  | shape => shape

theorem map_ofInner (f : Node → Node) (inner : Option Node) :
    (ofInner inner).map f = ofInner (inner.map f) := by
  cases inner with
  | none => rfl
  | some inner => rfl

end ArgShape

section Grammars

variable (above : List Frame) (n : Node)

namespace Python

@[simp]
theorem isInterpolated_graft : isInterpolated (n.graft above) = isInterpolated n :=
  Node.hasChildKind_graft above n _

@[simp]
theorem dictionaryKey?_graft : dictionaryKey? (n.graft above) = dictionaryKey? n := by
  simp only [dictionaryKey?, Node.kind_graft, Node.text_graft, isInterpolated_graft]

theorem dictionaryEntry_graft :
    dictionaryEntry (n.graft above) = (dictionaryEntry n).map (Node.graft above) := by
  unfold dictionaryEntry
  simp only [Node.kind_graft, Node.field?_graft, Option.bind_map, Function.comp_def,
    dictionaryKey?_graft]
  split
  · cases (n.field? "key").bind fun key => dictionaryKey? key with
    | none => rfl
    | some key =>
      cases n.field? "value" with
      | none => rfl
      | some value => rfl
  · rfl

@[simp]
theorem isNegatedNumber_graft : isNegatedNumber (n.graft above) = isNegatedNumber n := by
  simp only [isNegatedNumber, Node.fieldText?_graft, Node.field?_graft, Option.any_map]
  rfl

theorem classifyArg_graft :
    classifyArg (n.graft above) = (classifyArg n).map (Node.graft above) := by
  unfold classifyArg
  simp only [Node.kind_graft]
  split
  · rw [isInterpolated_graft, Node.text_graft]
    split <;> rfl
  · simp only [Node.namedChildren_graft, List.any_map, List.map_map, Function.comp_def,
      isInterpolated_graft, Node.text_graft]
    split <;> rfl
  · rfl
  · rfl
  · rw [isNegatedNumber_graft, Node.text_graft]
    split <;> rfl
  · rfl
  · rfl
  · rfl
  · rfl
  · simp [items, ArgShape.map, Function.comp_def, dictionaryEntry_graft]
  · simp [items, ArgShape.map]
  · simp [items, ArgShape.map]
  · simp [items, ArgShape.map]
  · rw [Node.fieldText?_graft, Node.field?_graft]
    cases n.fieldText? "name" with
    | none => rfl
    | some name =>
      cases n.field? "value" with
      | none => rfl
      | some value => rfl
  · rw [Node.firstNamedChild?_graft, ArgShape.map_ofInner]
  · rfl

theorem argumentNodes_graft :
    argumentNodes (n.graft above) = (argumentNodes n).map (Node.graft above) := by
  unfold argumentNodes
  rw [Node.kind_graft]
  split
  · rfl
  · exact Node.namedChildrenExcept_graft above n _

end Python

namespace TypeScript

@[simp]
theorem propertyKey?_graft : propertyKey? (n.graft above) = propertyKey? n := rfl

theorem objectEntry_graft :
    objectEntry (n.graft above) = (objectEntry n).map (Node.graft above) := by
  unfold objectEntry
  simp only [Node.kind_graft, Node.field?_graft, Option.bind_map, Function.comp_def,
    propertyKey?_graft]
  split
  · cases (n.field? "key").bind fun key => propertyKey? key with
    | none => rfl
    | some key =>
      cases n.field? "value" with
      | none => rfl
      | some value => rfl
  · rfl
  · rfl

@[simp]
theorem isNegatedNumber_graft : isNegatedNumber (n.graft above) = isNegatedNumber n := by
  simp only [isNegatedNumber, Node.fieldText?_graft, Node.field?_graft, Option.any_map]
  rfl

theorem classifyArg_graft :
    classifyArg (n.graft above) = (classifyArg n).map (Node.graft above) := by
  unfold classifyArg
  simp only [Node.kind_graft]
  split
  · rfl
  · rw [Node.hasChildKind_graft, Node.text_graft]
    split <;> rfl
  · rfl
  · rw [isNegatedNumber_graft, Node.text_graft]
    split <;> rfl
  · rfl
  · rfl
  · rfl
  · rfl
  · rw [Node.text_graft]
    split <;> rfl
  · rfl
  · simp [items, ArgShape.map, Function.comp_def, objectEntry_graft]
  · simp [items, ArgShape.map]
  iterate 4 rw [Node.firstNamedChild?_graft, ArgShape.map_ofInner]
  rfl

theorem argumentNodes_graft :
    argumentNodes (n.graft above) = (argumentNodes n).map (Node.graft above) := by
  unfold argumentNodes
  rw [Node.kind_graft]
  split
  · rfl
  · exact Node.namedChildrenExcept_graft above n _

end TypeScript

namespace Rust

theorem structEntry_graft :
    structEntry (n.graft above) = (structEntry n).map (Node.graft above) := by
  unfold structEntry
  simp only [Node.kind_graft, Node.field?_graft, Node.firstNamedChild?_graft]
  split
  · cases n.field? "field" with
    | none => rfl
    | some key =>
      cases n.field? "value" with
      | none => rfl
      | some value => rfl
  · cases n.firstNamedChild? with
    | none => rfl
    | some name => rfl
  · rfl

@[simp]
theorem isNegatedNumber_graft : isNegatedNumber (n.graft above) = isNegatedNumber n := by
  simp only [isNegatedNumber, Node.firstNamedChild?_graft, Option.any_map, Node.text_graft]
  rfl

theorem classifyArg_graft :
    classifyArg (n.graft above) = (classifyArg n).map (Node.graft above) := by
  unfold classifyArg
  simp only [Node.kind_graft]
  split
  iterate 6 rfl
  · rw [isNegatedNumber_graft, Node.text_graft]
    split <;> rfl
  · rfl
  · rw [Node.text_graft]
    split <;> rfl
  · rfl
  · rfl
  · rw [Node.field?_graft]
    cases n.field? "body" with
    | none => rfl
    | some body => simp [ArgShape.map, Function.comp_def, structEntry_graft]
  · rw [Node.hasChildKind_graft]
    split
    · rfl
    · simp [items, ArgShape.map]
  · simp [items, ArgShape.map]
  · rw [Node.field?_graft, ArgShape.map_ofInner]
  · rw [Node.firstNamedChild?_graft, ArgShape.map_ofInner]
  · rfl

theorem items_graft : items (n.graft above) = (items n).map (Node.graft above) :=
  Node.namedChildrenExcept_graft above n _

end Rust

namespace Language

variable (language : Language)

theorem classifyArg_graft :
    language.grammar.classifyArg (n.graft above) =
      (language.grammar.classifyArg n).map (Node.graft above) := by
  cases language with
  | rust => exact Rust.classifyArg_graft above n
  | typescript => exact TypeScript.classifyArg_graft above n
  | javascript => exact TypeScript.classifyArg_graft above n
  | python => exact Python.classifyArg_graft above n

theorem argumentNodes_graft :
    language.grammar.argumentNodes (n.graft above) =
      (language.grammar.argumentNodes n).map (Node.graft above) := by
  cases language with
  | rust => exact Rust.items_graft above n
  | typescript => exact TypeScript.argumentNodes_graft above n
  | javascript => exact TypeScript.argumentNodes_graft above n
  | python => exact Python.argumentNodes_graft above n

end Language

end Grammars

namespace Extract

theorem kindOfShape_map {inner : Node → CountM Argument} {f : Node → Node}
    (hinner : ∀ n, inner (f n) = inner n) (hargument : ∀ n, (f n).toArgument = n.toArgument)
    (htext : ∀ n, (f n).text = n.text) (shape : ArgShape) :
    kindOfShape inner (shape.map f) = kindOfShape inner shape := by
  cases shape with
  | object entries =>
    rw [ArgShape.map, kindOfShape, kindOfShape, List.foldlM_map]
    congr 2
    funext properties entry
    cases entry with
    | pair key value => simp only [addProperty, property, ObjectEntry.map, hinner]
    | shorthand name node => simp only [addProperty, property, ObjectEntry.map, hargument]
    | unclassified node => simp only [addProperty, property, ObjectEntry.map, hargument, htext]
  | array items => simp only [ArgShape.map, kindOfShape, List.mapM_map, Function.comp_def, hinner]
  | keyword name value => simp only [ArgShape.map, kindOfShape, hinner]
  | wrapped node => simp only [ArgShape.map, kindOfShape, hinner]
  | _ => rfl

theorem argumentAt_graft (language : Language) (above : List Frame) (levels : Nat) (n : Node) :
    argumentAt language.grammar levels (n.graft above) = argumentAt language.grammar levels n := by
  induction levels generalizing n with
  | zero => rfl
  | succ levels ih =>
    rw [argumentAt_succ, argumentAt_succ, Language.classifyArg_graft,
      kindOfShape_map ih (Node.toArgument_graft above) (Node.text_graft above),
      Node.toArgument_graft]

theorem arguments_graft (language : Language) (scope : Scope) (above : List Frame) (list : Node) :
    arguments language.grammar scope (list.graft above) =
      arguments language.grammar scope list := by
  unfold arguments
  rw [Language.argumentNodes_graft, List.mapM_map]
  congr 1
  funext n
  exact argumentAt_graft language above _ n

end Extract

end Polyglot
