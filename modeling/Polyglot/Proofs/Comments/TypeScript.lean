import Polyglot.Grammar.TypeScript
import Polyglot.Proofs.Comments.Basic
import Polyglot.Proofs.Meaning

/-!
This module contains the places for comments in TypeScript and JavaScript, and the proof that the
grammar skips them.
-/

namespace Polyglot.TypeScript

def commentRoom : String → Room
  | "arguments" | "array" | "object" => .anywhere
  | "parenthesized_expression" | "await_expression" => .behind
  | _ => .nowhere

/--
Whether the text of a node is read: it is a literal or a name, or it is an entry of an object
without a plain key.
-/
def isVerbatim (n : Node) : Bool :=
  (match n.kind with
    | "string" | "number" | "identifier" | "this" | "super" | "import" | "property_identifier"
    | "private_property_identifier" | "shorthand_property_identifier" => true
    | "template_string" => !n.hasChildKind "template_substitution"
    | "unary_expression" => isNegatedNumber n
    | _ => false)
  || (match n.parentKind? with
    | some "unary_expression" => n.label.field == some "operator"
    | some "object" => (objectEntry n).isUnclassified
    | _ => false)
  || n.label.field == some "property"

def commentRules : CommentRules where
  kinds := commentKinds
  room := commentRoom
  verbatim := isVerbatim

section Commented

variable {n m : Node} (h : Commented commentRules n m)

include h

theorem rel_property :
    Option.Rel (fun c d => c.text = d.text) (n.field? "property") (m.field? "property") := by
  apply h.rel_text_field?
  intro c _ hrole
  simp [commentRules, isVerbatim, hrole]

theorem rel_calleeStep {ns ms : Option Node} (hlist : Option.Rel (Commented commentRules) ns ms) :
    ChainStep.Rel (Commented commentRules) (calleeStep n ns) (calleeStep m ms) := by
  unfold calleeStep
  rw [← h.kind_eq]
  split
  · exact ChainStep.rel_ofMethod h hlist (rel_property h) (h.rel_field? "object")
  iterate 3
    next hkind => exact .freeCall (h.text_eq (by simp [commentRules, isVerbatim, hkind])) hlist
  exact .invoke h hlist

theorem rel_classifyChain :
    ChainStep.Rel (Commented commentRules) (classifyChain n) (classifyChain m) := by
  unfold classifyChain
  rw [← h.kind_eq]
  split
  · have hcallee := h.rel_field? "function"
    generalize n.field? "function" = c, m.field? "function" = d at hcallee
    cases hcallee with
    | none => exact .unclassified
    | some hcallee => exact rel_calleeStep hcallee (h.rel_field? "arguments")
  · exact ChainStep.rel_ofField (rel_property h) (h.rel_field? "object")
  · exact ChainStep.rel_ofInner (h.rel_field? "object")
  · next hkind => exact ChainStep.rel_ofOperand _ (h.rel_firstNamedChild? (by rw [hkind]; decide))
  iterate 4
    next hkind => exact ChainStep.rel_ofInner (h.rel_firstNamedChild? (by rw [hkind]; decide))
  iterate 3 exact .terminal
  exact .unclassified

theorem propertyKey?_eq : propertyKey? n = propertyKey? m := by
  unfold propertyKey?
  rw [← h.kind_eq]
  split
  iterate 5
    next hkind => rw [h.text_eq (by simp [commentRules, isVerbatim, hkind])]
  rfl

theorem rel_objectEntry (hparent : n.parentKind? = some "object") :
    ObjectEntry.Rel (Commented commentRules) (objectEntry n) (objectEntry m) := by
  have hkey : (n.field? "key").bind propertyKey? = (m.field? "key").bind propertyKey? := by
    have hkey := h.rel_field? "key"
    generalize n.field? "key" = c, m.field? "key" = d at hkey
    cases hkey with
    | none => rfl
    | some hkey => exact propertyKey?_eq hkey
  have hvalue := h.rel_field? "value"
  have htext : (objectEntry n).isUnclassified → n.text = m.text := by
    intro hentry
    exact h.text_eq (by simp [commentRules, isVerbatim, hparent, hentry])
  unfold objectEntry at htext ⊢
  rw [← h.kind_eq, ← hkey]
  generalize (n.field? "key").bind propertyKey? = key at htext ⊢
  generalize n.field? "value" = v, m.field? "value" = w at hvalue htext ⊢
  revert htext
  split
  · cases key with
    | none => exact fun htext => .unclassified (htext rfl)
    | some key =>
      cases hvalue with
      | none => exact fun htext => .unclassified (htext rfl)
      | some hvalue => exact fun _ => .pair hvalue
  · next hkind =>
    rw [h.text_eq (by simp [commentRules, isVerbatim, hkind])]
    exact fun _ => .shorthand
  · exact fun htext => .unclassified (htext rfl)

theorem isNegatedNumber_eq (hkind : n.kind = "unary_expression") :
    isNegatedNumber n = isNegatedNumber m := by
  unfold isNegatedNumber
  rw [h.fieldText?_eq]
  · rw [any_eq_of_rel _ (h.rel_field? "argument")]
    intro c d hcd
    rw [hcd.kind_eq]
  · intro c hc hrole
    have hparent := Node.parentKind?_of_mem_children hc
    rw [hkind] at hparent
    simp [commentRules, isVerbatim, hparent, hrole]

theorem forall₂_items : List.Forall₂ (Commented commentRules) (items n) (items m) :=
  h.forall₂_namedChildrenExcept fun _ hk => hk

theorem rel_classifyArg :
    ArgShape.Rel (Commented commentRules) (classifyArg n) (classifyArg m) := by
  unfold classifyArg
  rw [← h.kind_eq]
  split
  · next hkind =>
    rw [h.text_eq (by simp [commentRules, isVerbatim, hkind])]
    exact .string
  · next hkind =>
    rw [← h.hasChildKind_eq (by decide)]
    split
    · exact .unclassified
    · next hplain =>
      rw [h.text_eq (by simp [commentRules, isVerbatim, hkind, hplain])]
      exact .string
  · next hkind =>
    rw [h.text_eq (by simp [commentRules, isVerbatim, hkind])]
    exact .number
  · next hkind =>
    rw [← isNegatedNumber_eq h hkind]
    split
    · next hneg =>
      rw [h.text_eq (by simp [commentRules, isVerbatim, hkind, hneg])]
      exact .number
    · exact .unclassified
  · exact .boolean
  · exact .boolean
  · exact .null
  · exact .null
  · next hkind =>
    rw [h.text_eq (by simp [commentRules, isVerbatim, hkind])]
    split
    · exact .null
    · exact .identifier
  · next hkind =>
    rw [h.text_eq (by simp [commentRules, isVerbatim, hkind])]
    exact .identifier
  · next hkind =>
    apply ArgShape.Rel.object
    apply forall₂_map_of_mem (forall₂_items h)
    intro c hc d hcd
    apply rel_objectEntry hcd
    rw [← hkind]
    apply Node.parentKind?_of_mem_children
    exact Node.mem_children_of_mem_namedChildren (List.mem_filter.1 hc).1
  · exact .array (forall₂_items h)
  iterate 4
    next hkind => exact ArgShape.rel_ofInner (h.rel_firstNamedChild? (by rw [hkind]; decide))
  exact .unclassified

theorem forall₂_argumentNodes :
    List.Forall₂ (Commented commentRules) (argumentNodes n) (argumentNodes m) := by
  unfold argumentNodes
  rw [← h.kind_eq]
  split
  · exact .cons h .nil
  · exact forall₂_items h

end Commented

theorem mirrors_commented : grammar.Mirrors (Commented commentRules) where
  chain h := rel_classifyChain h
  argument h := rel_classifyArg h
  list h := forall₂_argumentNodes h

end Polyglot.TypeScript
