import Polyglot.Grammar.Rust
import Polyglot.Proofs.Comments.Basic
import Polyglot.Proofs.Meaning

/-!
This module contains the places for comments in Rust, and the proof that the grammar skips them.
-/

namespace Polyglot.Rust

def commentRoom : String → Room
  | "arguments" | "array_expression" | "tuple_expression" | "struct_expression"
  | "field_initializer_list" => .anywhere
  | "parenthesized_expression" | "await_expression" | "try_expression" => .behind
  | _ => .nowhere

/--
Whether a node stands in the body of a struct literal.
-/
def isStructEntry (n : Node) : Bool :=
  match n.above with
  | body :: literal :: _ =>
    body.label.field == some "body" && literal.label.kind == "struct_expression"
  | _ => false

/--
Whether the text of a node is read: it is a literal, a name or a path, or it is an entry of a struct
literal without a key.
-/
def isVerbatim (n : Node) : Bool :=
  (match n.kind with
    | "string_literal" | "raw_string_literal" | "char_literal" | "integer_literal"
    | "float_literal" | "negative_literal" | "boolean_literal" | "identifier" | "self"
    | "scoped_identifier" => true
    | "unary_expression" =>
      n.firstNamedChild?.any (["integer_literal", "float_literal"].contains ·.kind)
    | _ => false)
  || (match n.parentKind? with
    | some "scoped_identifier" => n.label.field == some "name"
    | some "macro_invocation" => n.label.field == some "macro"
    | some "shorthand_field_initializer" => true
    | _ => false)
  || n.label.field == some "field"
  || (isStructEntry n && (structEntry n).isUnclassified)

def commentRules : CommentRules where
  kinds := commentKinds
  room := commentRoom
  verbatim := isVerbatim

section Commented

variable {n m : Node} (h : Commented commentRules n m)

include h

theorem rel_member :
    Option.Rel (fun c d => c.text = d.text) (n.field? "field") (m.field? "field") := by
  apply h.rel_text_field?
  intro c _ hrole
  simp [commentRules, isVerbatim, hrole]

theorem rel_name (hkind : n.kind = "scoped_identifier") :
    Option.Rel (fun c d => c.text = d.text) (n.field? "name") (m.field? "name") := by
  apply h.rel_text_field?
  intro c hc hrole
  have hparent := Node.parentKind?_of_mem_children hc
  rw [hkind] at hparent
  simp [commentRules, isVerbatim, hparent, hrole]

end Commented

theorem rel_calleeStep {n m : Node} (h : Commented commentRules n m) {ns ms : Option Node}
    (hlist : Option.Rel (Commented commentRules) ns ms) :
    ChainStep.Rel (Commented commentRules) (calleeStep n ns) (calleeStep m ms) := by
  rw [calleeStep, calleeStep, ← h.kind_eq]
  split
  · next hkind => exact .freeCall (h.text_eq (by simp [commentRules, isVerbatim, hkind])) hlist
  · exact ChainStep.rel_ofMethod h hlist (rel_member h) (h.rel_field? "value")
  · next hkind =>
    have hname := rel_name h hkind
    generalize n.field? "name" = c, m.field? "name" = d at hname
    cases hname with
    | none => exact .invoke h hlist
    | some hname => exact .pathCall (h.rel_field? "path") hname hlist
  -- A callee with type arguments is looked into once more.
  · have hinner := h.rel_field? "function"
    split
    · next inner hn =>
      rw [hn] at hinner
      split
      · next inner' hm =>
        rw [hm] at hinner
        cases hinner with
        | some hinner => exact rel_calleeStep hinner hlist
      · next hm =>
        rw [hm] at hinner
        cases hinner
    · next hn =>
      rw [hn] at hinner
      split
      · next inner' hm =>
        rw [hm] at hinner
        cases hinner
      · exact .invoke h hlist
  · exact .invoke h hlist
termination_by n.size
decreasing_by exact Node.size_lt_of_field ‹_›

section Commented

variable {n m : Node} (h : Commented commentRules n m)

include h

theorem rel_macro (hparent : n.parentKind? = some "macro_invocation")
    (hrole : n.label.field = some "macro") :
    ChainStep.Rel (Commented commentRules)
      (if n.kind = "scoped_identifier" then
        match n.field? "name" with
        | some last => .macroCall (n.field? "path") last
        | none => .unclassified
      else .macroCall none n)
      (if m.kind = "scoped_identifier" then
        match m.field? "name" with
        | some last => .macroCall (m.field? "path") last
        | none => .unclassified
      else .macroCall none m) := by
  rw [← h.kind_eq]
  split
  · next hkind =>
    have hname := rel_name h hkind
    generalize n.field? "name" = c, m.field? "name" = d at hname
    cases hname with
    | none => exact .unclassified
    | some hname => exact .macroCall (h.rel_field? "path") hname
  · exact .macroCall .none (h.text_eq (by simp [commentRules, isVerbatim, hparent, hrole]))

theorem rel_classifyChain :
    ChainStep.Rel (Commented commentRules) (classifyChain n) (classifyChain m) := by
  unfold classifyChain
  rw [← h.kind_eq]
  split
  · have hcallee := h.rel_field? "function"
    generalize n.field? "function" = c, m.field? "function" = d at hcallee
    cases hcallee with
    | none => exact .unclassified
    | some hcallee => exact rel_calleeStep hcallee (h.rel_field? "arguments")
  · exact ChainStep.rel_ofField (rel_member h) (h.rel_field? "value")
  · next hkind =>
    have hname := h.rel_field? "macro"
    generalize m.field? "macro" = d at hname ⊢
    cases hn : n.field? "macro" with
    | none =>
      rw [hn] at hname
      cases hname
      exact .unclassified
    | some c =>
      have hparent := Node.parentKind?_of_mem_children (List.mem_of_find?_eq_some hn)
      have hrole := List.find?_some hn
      rw [hkind] at hparent
      rw [hn] at hname
      cases hname with
      | some hname => exact rel_macro hname hparent (eq_of_beq hrole)
  iterate 2
    next hkind =>
      exact ChainStep.rel_ofOperand _ (h.rel_firstNamedChild? (by rw [hkind]; decide))
  iterate 2
    next hkind => exact ChainStep.rel_ofInner (h.rel_firstNamedChild? (by rw [hkind]; decide))
  iterate 5 exact .terminal
  exact .unclassified

theorem rel_structEntry (hentry : isStructEntry n) :
    ObjectEntry.Rel (Commented commentRules) (structEntry n) (structEntry m) := by
  have htext : (structEntry n).isUnclassified → n.text = m.text := by
    intro hu
    exact h.text_eq (by simp [commentRules, isVerbatim, hentry, hu])
  have hkey := rel_member h
  have hvalue := h.rel_field? "value"
  unfold structEntry at htext ⊢
  rw [← h.kind_eq]
  revert htext
  split
  · generalize n.field? "field" = c, m.field? "field" = d at hkey ⊢
    generalize n.field? "value" = v, m.field? "value" = w at hvalue ⊢
    cases hkey with
    | none => exact fun htext => .unclassified (htext rfl)
    | @some c d hkey =>
      cases hvalue with
      | none => exact fun htext => .unclassified (htext rfl)
      | some hvalue =>
        intro _
        simp only [hkey]
        exact .pair hvalue
  · next hkind =>
    have hname := h.rel_firstNamedChild? (by rw [hkind]; decide)
    generalize m.firstNamedChild? = d at hname ⊢
    cases hn : n.firstNamedChild? with
    | none =>
      rw [hn] at hname
      cases hname
      exact fun htext => .unclassified (htext rfl)
    | some c =>
      have hparent := Node.parentKind?_of_mem_children
        (Node.mem_children_of_mem_namedChildren (List.mem_of_head? hn))
      rw [hkind] at hparent
      rw [hn] at hname
      cases hname with
      | some hname =>
        intro _
        simp only [hname.text_eq (by simp [commentRules, isVerbatim, hparent])]
        exact .shorthand
  · exact fun htext => .unclassified (htext rfl)

omit h in
theorem isStructEntry_of_mem {body c : Node} (hkind : n.kind = "struct_expression")
    (hbody : n.field? "body" = some body) (hc : c ∈ body.children) : isStructEntry c := by
  have hrole := List.find?_some hbody
  obtain ⟨before, t, after, -, rfl⟩ := Node.mem_children_iff.1 hc
  obtain ⟨before', t', after', -, rfl⟩ :=
    Node.mem_children_iff.1 (List.mem_of_find?_eq_some hbody)
  have hliteral : n.label.kind = "struct_expression" := hkind
  simp only [isStructEntry, Node.childAt, Bool.and_eq_true, beq_iff_eq]
  exact ⟨eq_of_beq hrole, hliteral⟩

omit h in
theorem isVerbatim_of_unary (hkind : n.kind = "unary_expression")
    (hliteral : n.firstNamedChild?.any (["integer_literal", "float_literal"].contains ·.kind)) :
    isVerbatim n := by
  unfold isVerbatim
  rw [hkind]
  simp only [hliteral, Bool.true_or]

theorem isNegatedNumber_eq (hkind : n.kind = "unary_expression") :
    isNegatedNumber n = isNegatedNumber m := by
  have hany : n.firstNamedChild?.any (["integer_literal", "float_literal"].contains ·.kind) =
      m.firstNamedChild?.any (["integer_literal", "float_literal"].contains ·.kind) := by
    apply any_eq_of_rel _ (h.rel_firstNamedChild? (by rw [hkind]; decide))
    intro c d hcd
    rw [hcd.kind_eq]
  unfold isNegatedNumber
  rw [← hany]
  cases hliteral :
      n.firstNamedChild?.any (["integer_literal", "float_literal"].contains ·.kind) with
  | false => rw [Bool.false_and, Bool.false_and]
  | true => rw [h.text_eq (isVerbatim_of_unary hkind hliteral)]

theorem forall₂_items : List.Forall₂ (Commented commentRules) (items n) (items m) := by
  apply h.forall₂_namedChildrenExcept
  intro k hk
  exact List.mem_cons_of_mem _ hk

theorem rel_structShape (hkind : n.kind = "struct_expression") :
    ArgShape.Rel (Commented commentRules)
      (match n.field? "body" with
      | some body => .object ((body.namedChildrenExcept commentKinds).map structEntry)
      | none => .unclassified)
      (match m.field? "body" with
      | some body => .object ((body.namedChildrenExcept commentKinds).map structEntry)
      | none => .unclassified) := by
  have hbody := h.rel_field? "body"
  generalize m.field? "body" = d at hbody ⊢
  cases hn : n.field? "body" with
  | none =>
    rw [hn] at hbody
    cases hbody
    exact .unclassified
  | some body =>
    rw [hn] at hbody
    cases hbody with
    | some hbody =>
      apply ArgShape.Rel.object
      apply forall₂_map_of_mem (hbody.forall₂_namedChildrenExcept fun _ hk => hk)
      intro c hc d hcd
      apply rel_structEntry hcd
      apply isStructEntry_of_mem hkind hn
      exact Node.mem_children_of_mem_namedChildren (List.mem_filter.1 hc).1

theorem rel_classifyArg :
    ArgShape.Rel (Commented commentRules) (classifyArg n) (classifyArg m) := by
  unfold classifyArg
  rw [← h.kind_eq]
  split
  iterate 3
    next hkind =>
      rw [h.text_eq (by simp [commentRules, isVerbatim, hkind])]
      exact .string
  iterate 3
    next hkind =>
      rw [h.text_eq (by simp [commentRules, isVerbatim, hkind])]
      exact .number
  · next hkind =>
    rw [← isNegatedNumber_eq h hkind]
    split
    · next hneg =>
      rw [h.text_eq (isVerbatim_of_unary hkind (Bool.and_eq_true_iff.1 hneg).1)]
      exact .number
    · exact .unclassified
  · next hkind =>
    rw [h.text_eq (by simp [commentRules, isVerbatim, hkind])]
    exact .boolean
  · next hkind =>
    rw [h.text_eq (by simp [commentRules, isVerbatim, hkind])]
    split
    · exact .null
    · exact .identifier
  iterate 2
    next hkind =>
      rw [h.text_eq (by simp [commentRules, isVerbatim, hkind])]
      exact .identifier
  · next hkind => exact rel_structShape h hkind
  · rw [← h.hasChildKind_eq (by decide)]
    split
    · exact .unclassified
    · exact .array (forall₂_items h)
  · exact .array (forall₂_items h)
  · exact ArgShape.rel_ofInner (h.rel_field? "value")
  · next hkind => exact ArgShape.rel_ofInner (h.rel_firstNamedChild? (by rw [hkind]; decide))
  · exact .unclassified

end Commented

theorem mirrors_commented : grammar.Mirrors (Commented commentRules) where
  chain h := rel_classifyChain h
  argument h := rel_classifyArg h
  list h := forall₂_items h

end Polyglot.Rust
