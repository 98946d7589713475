import Polyglot.Grammar.Python
import Polyglot.Proofs.Comments.Basic
import Polyglot.Proofs.Meaning

/-!
This module contains the places for comments in Python, and the proof that the grammar skips them.
-/

namespace Polyglot.Python

def commentRoom : String → Room
  | "argument_list" | "list" | "tuple" | "set" | "dictionary" => .anywhere
  | "parenthesized_expression" | "await" => .behind
  | _ => .nowhere

/--
Whether the text of a node is read: it is a literal or a name, or it is an entry of a dictionary
without a plain key.
-/
def isVerbatim (n : Node) : Bool :=
  (match n.kind with
    | "string" => !isInterpolated n
    | "integer" | "float" | "true" | "false" | "identifier" => true
    | "unary_operator" => isNegatedNumber n
    | _ => false)
  || (match n.parentKind? with
    | some "unary_operator" => n.label.field == some "operator"
    | some "keyword_argument" => n.label.field == some "name"
    | some "concatenated_string" => !isInterpolated n
    | some "dictionary" => (dictionaryEntry n).isUnclassified
    | _ => false)
  || n.label.field == some "attribute"

def commentRules : CommentRules where
  kinds := commentKinds
  room := commentRoom
  verbatim := isVerbatim

section Commented

variable {n m : Node} (h : Commented commentRules n m)

include h

theorem rel_attribute :
    Option.Rel (fun c d => c.text = d.text) (n.field? "attribute") (m.field? "attribute") := by
  apply h.rel_text_field?
  intro c _ hrole
  simp [commentRules, isVerbatim, hrole]

theorem rel_calleeStep {ns ms : Option Node} (hlist : Option.Rel (Commented commentRules) ns ms) :
    ChainStep.Rel (Commented commentRules) (calleeStep n ns) (calleeStep m ms) := by
  unfold calleeStep
  rw [← h.kind_eq]
  split
  · exact ChainStep.rel_ofMethod h hlist (rel_attribute h) (h.rel_field? "object")
  · next hkind => exact .freeCall (h.text_eq (by simp [commentRules, isVerbatim, hkind])) hlist
  · exact .invoke h hlist

theorem rel_classifyChain :
    ChainStep.Rel (Commented commentRules) (classifyChain n) (classifyChain m) := by
  unfold classifyChain
  rw [← h.kind_eq]
  split
  · have hcallee := h.rel_field? "function"
    generalize n.field? "function" = c, m.field? "function" = d at hcallee
    cases hcallee with
    | none => exact .unclassified
    | some hcallee => exact rel_calleeStep hcallee (h.rel_field? "arguments")
  · exact ChainStep.rel_ofField (rel_attribute h) (h.rel_field? "object")
  · exact ChainStep.rel_ofInner (h.rel_field? "value")
  · next hkind =>
    apply ChainStep.rel_ofOperand
    apply h.rel_firstNamedChild?
    rw [hkind]
    decide
  · next hkind =>
    apply ChainStep.rel_ofInner
    apply h.rel_firstNamedChild?
    rw [hkind]
    decide
  · exact .terminal
  · exact .unclassified

theorem isInterpolated_eq : isInterpolated n = isInterpolated m :=
  h.hasChildKind_eq (by decide)

theorem dictionaryKey?_eq : dictionaryKey? n = dictionaryKey? m := by
  unfold dictionaryKey?
  rw [← h.kind_eq]
  split
  · next hkind =>
    rw [← isInterpolated_eq h]
    split
    · rfl
    · next hplain => rw [h.text_eq (by simp [commentRules, isVerbatim, hkind, hplain])]
  iterate 5
    next hkind => rw [h.text_eq (by simp [commentRules, isVerbatim, hkind])]
  rfl

theorem rel_dictionaryEntry (hparent : n.parentKind? = some "dictionary") :
    ObjectEntry.Rel (Commented commentRules) (dictionaryEntry n) (dictionaryEntry m) := by
  have hkey : (n.field? "key").bind dictionaryKey? = (m.field? "key").bind dictionaryKey? := by
    have hkey := h.rel_field? "key"
    generalize n.field? "key" = c, m.field? "key" = d at hkey
    cases hkey with
    | none => rfl
    | some hkey => exact dictionaryKey?_eq hkey
  have hvalue := h.rel_field? "value"
  -- Without a plain key the text of the entry is read, and then there is no comment in it.
  have htext : (dictionaryEntry n).isUnclassified → n.text = m.text := by
    intro hentry
    exact h.text_eq (by simp [commentRules, isVerbatim, hparent, hentry])
  unfold dictionaryEntry at htext ⊢
  rw [← h.kind_eq, ← hkey]
  generalize (n.field? "key").bind dictionaryKey? = key at htext ⊢
  generalize n.field? "value" = v, m.field? "value" = w at hvalue htext ⊢
  revert htext
  split
  · cases key with
    | none => exact fun htext => .unclassified (htext rfl)
    | some key =>
      cases hvalue with
      | none => exact fun htext => .unclassified (htext rfl)
      | some hvalue => exact fun _ => .pair hvalue
  · exact fun htext => .unclassified (htext rfl)

theorem isNegatedNumber_eq (hkind : n.kind = "unary_operator") :
    isNegatedNumber n = isNegatedNumber m := by
  unfold isNegatedNumber
  rw [h.fieldText?_eq]
  · rw [any_eq_of_rel _ (h.rel_field? "argument")]
    intro c d hcd
    rw [hcd.kind_eq]
  · intro c hc hrole
    have hparent := Node.parentKind?_of_mem_children hc
    rw [hkind] at hparent
    simp [commentRules, isVerbatim, hparent, hrole]

theorem forall₂_items : List.Forall₂ (Commented commentRules) (items n) (items m) :=
  h.forall₂_namedChildrenExcept fun _ hk => hk

theorem any_isInterpolated_eq (hkind : n.kind = "concatenated_string") :
    n.namedChildren.any isInterpolated = m.namedChildren.any isInterpolated := by
  apply any_eq_of_forall₂ (fun _ _ hcd => isInterpolated_eq hcd)
  apply h.forall₂_namedChildren
  rw [hkind]
  rfl

theorem map_unquote_eq (hkind : n.kind = "concatenated_string")
    (hplain : n.namedChildren.any isInterpolated = false) :
    n.namedChildren.map (Text.unquote ·.text) = m.namedChildren.map (Text.unquote ·.text) := by
  have htexts : n.namedChildren.map Node.text = m.namedChildren.map Node.text := by
    apply map_text_eq (h.forall₂_namedChildren (by rw [hkind]; rfl))
    intro c hc
    have hparent := Node.parentKind?_of_mem_children (Node.mem_children_of_mem_namedChildren hc)
    have hc := List.any_eq_false.1 hplain c hc
    rw [hkind] at hparent
    simp [commentRules, isVerbatim, hparent, hc]
  have hvalues := congrArg (List.map Text.unquote) htexts
  rw [List.map_map, List.map_map] at hvalues
  exact hvalues

theorem fieldText?_name_eq (hkind : n.kind = "keyword_argument") :
    n.fieldText? "name" = m.fieldText? "name" := by
  apply h.fieldText?_eq
  intro c hc hrole
  have hparent := Node.parentKind?_of_mem_children hc
  rw [hkind] at hparent
  simp [commentRules, isVerbatim, hparent, hrole]

theorem rel_classifyArg :
    ArgShape.Rel (Commented commentRules) (classifyArg n) (classifyArg m) := by
  unfold classifyArg
  rw [← h.kind_eq]
  split
  · next hkind =>
    rw [← isInterpolated_eq h]
    split
    · exact .unclassified
    · next hplain =>
      rw [h.text_eq (by simp [commentRules, isVerbatim, hkind, hplain])]
      exact .string
  · next hkind =>
    rw [← any_isInterpolated_eq h hkind]
    split
    · exact .unclassified
    · next hplain =>
      rw [map_unquote_eq h hkind (Bool.eq_false_iff.2 hplain)]
      exact .string
  iterate 2
    next hkind =>
      rw [h.text_eq (by simp [commentRules, isVerbatim, hkind])]
      exact .number
  · next hkind =>
    rw [← isNegatedNumber_eq h hkind]
    split
    · next hneg =>
      rw [h.text_eq (by simp [commentRules, isVerbatim, hkind, hneg])]
      exact .number
    · exact .unclassified
  · exact .boolean
  · exact .boolean
  · exact .null
  · next hkind =>
    rw [h.text_eq (by simp [commentRules, isVerbatim, hkind])]
    exact .identifier
  · next hkind =>
    apply ArgShape.Rel.object
    apply forall₂_map_of_mem (forall₂_items h)
    intro c hc d hcd
    apply rel_dictionaryEntry hcd
    rw [← hkind]
    apply Node.parentKind?_of_mem_children
    exact Node.mem_children_of_mem_namedChildren (List.mem_filter.1 hc).1
  iterate 3 exact .array (forall₂_items h)
  · next hkind =>
    have hvalue := h.rel_field? "value"
    rw [← fieldText?_name_eq h hkind]
    generalize n.field? "value" = v, m.field? "value" = w at hvalue
    cases n.fieldText? "name" with
    | none => exact .unclassified
    | some name =>
      cases hvalue with
      | none => exact .unclassified
      | some hvalue => exact .keyword hvalue
  · next hkind =>
    apply ArgShape.rel_ofInner
    apply h.rel_firstNamedChild?
    rw [hkind]
    decide
  · exact .unclassified

theorem forall₂_argumentNodes :
    List.Forall₂ (Commented commentRules) (argumentNodes n) (argumentNodes m) := by
  unfold argumentNodes
  rw [← h.kind_eq]
  split
  · exact .cons h .nil
  · exact forall₂_items h

end Commented

theorem mirrors_commented : grammar.Mirrors (Commented commentRules) where
  chain h := rel_classifyChain h
  argument h := rel_classifyArg h
  list h := forall₂_argumentNodes h

end Polyglot.Python
