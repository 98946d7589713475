import Polyglot.Grammar
import Polyglot.Proofs.Lists
import Polyglot.Proofs.Tree.Preorder

/-!
This module contains the relation between a node and the same node with comments added in it. What
is looked up among the children, by role, by kind or by position, is then found in the same way.
-/

namespace Polyglot

/--
Where comments may be added among the children of a node. `behind` is the part after the first
child with a name.
-/
inductive Room where
  | nowhere
  | behind
  | anywhere
deriving DecidableEq

/--
The room that is left after a child.
-/
def Room.after (isNamed : Bool) : Room → Room
  | behind => if isNamed then anywhere else behind
  | room => room

/--
Where comments may be added to the trees of a language: not in the nodes whose text is read, and
elsewhere by the kind of the node.
-/
structure CommentRules where
  kinds : List String
  room : String → Room
  verbatim : Node → Bool

def ObjectEntry.isUnclassified : ObjectEntry → Bool
  | unclassified _ => true
  | _ => false

/--
Which child of its parent each node on the way to the root is, not counting nodes of the given
kinds.
-/
def Node.trail (kinds : List String) (n : Node) : List Nat :=
  n.above.map fun frame => (frame.before.filter (!kinds.contains ·.label.kind)).length

/--
The nodes of the second list are those of the first one, with comments in between as far as there is
room for them.
-/
inductive Interspersed (R : Node → Node → Prop) (kinds : List String) :
    Room → List Node → List Node → Prop where
  | nil {room : Room} : Interspersed R kinds room [] []
  | both {room : Room} {n m : Node} {ns ms : List Node} : R n m →
      Interspersed R kinds (room.after n.isNamed) ns ms →
      Interspersed R kinds room (n :: ns) (m :: ms)
  | comment {c : Node} {ns ms : List Node} : c.kind ∈ kinds → c.label.field = none →
      Interspersed R kinds .anywhere ns ms → Interspersed R kinds .anywhere ns (c :: ms)

/--
`Commented rules n m` holds if `m` is `n` with comments added. Positions may differ, but a node
without a new comment in it keeps its text.
-/
inductive Commented (rules : CommentRules) : Node → Node → Prop where
  | mk {n m : Node} : n.kind = m.kind → n.isNamed = m.isNamed → n.label.field = m.label.field →
      n.trail rules.kinds = m.trail rules.kinds → (n.size = m.size → n.text = m.text) →
      (rules.verbatim n = true → n.size = m.size) →
      Interspersed (Commented rules) rules.kinds (rules.room n.kind) n.children m.children →
      Commented rules n m

namespace Interspersed

variable {R : Node → Node → Prop} {kinds : List String} {room : Room} {ns ms : List Node}

theorem forall₂_filter {p : Node → Bool} (hp : ∀ n m, R n m → p n = p m)
    (hcomment : ∀ c, c.kind ∈ kinds → c.label.field = none → p c = false)
    (h : Interspersed R kinds room ns ms) :
    List.Forall₂ R (ns.filter p) (ms.filter p) := by
  induction h with
  | nil => exact .nil
  | both hnm _ ih =>
    rw [List.filter_cons, List.filter_cons, ← hp _ _ hnm]
    split
    · exact .cons hnm ih
    · exact ih
  | comment hkind hfield _ ih =>
    rw [List.filter_cons, hcomment _ hkind hfield]
    exact ih

theorem rel_find? {p : Node → Bool} (hp : ∀ n m, R n m → p n = p m)
    (hcomment : ∀ c, c.kind ∈ kinds → c.label.field = none → p c = false)
    (h : Interspersed R kinds room ns ms) :
    Option.Rel R (ns.find? p) (ms.find? p) := by
  have hfilter := h.forall₂_filter hp hcomment
  rw [← List.head?_filter, ← List.head?_filter]
  generalize ns.filter p = xs, ms.filter p = ys at hfilter
  cases hfilter with
  | nil => exact .none
  | cons h _ => exact .some h

theorem rel_find?_isNamed (hnamed : ∀ n m, R n m → n.isNamed = m.isNamed)
    (hroom : room ≠ .anywhere) (h : Interspersed R kinds room ns ms) :
    Option.Rel R (ns.find? (·.isNamed)) (ms.find? (·.isNamed)) := by
  induction h with
  | nil => exact .none
  | @both room n m _ _ hnm _ ih =>
    rw [List.find?_cons, List.find?_cons, ← hnamed _ _ hnm]
    cases hn : n.isNamed with
    | true => exact .some hnm
    | false =>
      -- There is no more room after a node without a name than before it.
      apply ih
      rw [hn]
      cases room with
      | anywhere => exact absurd rfl hroom
      | behind => exact hroom
      | nowhere => exact hroom
  | comment => exact absurd rfl hroom

theorem forall₂_filter_of_nowhere {p : Node → Bool} (hp : ∀ n m, R n m → p n = p m)
    (hroom : room = .nowhere) (h : Interspersed R kinds room ns ms) :
    List.Forall₂ R (ns.filter p) (ms.filter p) := by
  induction h with
  | nil => exact .nil
  | both hnm _ ih =>
    subst hroom
    rw [List.filter_cons, List.filter_cons, ← hp _ _ hnm]
    split
    · exact .cons hnm (ih rfl)
    · exact ih rfl
  | comment => cases hroom

theorem any_eq {p : Node → Bool} (hp : ∀ n m, R n m → p n = p m)
    (hcomment : ∀ c, c.kind ∈ kinds → p c = false) (h : Interspersed R kinds room ns ms) :
    ns.any p = ms.any p := by
  induction h with
  | nil => rfl
  | both hnm _ ih => rw [List.any_cons, List.any_cons, hp _ _ hnm, ih]
  | comment hkind _ _ ih => rw [List.any_cons, hcomment _ hkind, Bool.false_or, ih]

end Interspersed

namespace Commented

variable {rules : CommentRules} {n m : Node} (h : Commented rules n m)

include h

theorem kind_eq : n.kind = m.kind := by
  cases h
  assumption

theorem isNamed_eq : n.isNamed = m.isNamed := by
  cases h
  assumption

theorem field_eq : n.label.field = m.label.field := by
  cases h
  assumption

theorem text_eq (hverbatim : rules.verbatim n = true) : n.text = m.text := by
  cases h with
  | mk _ _ _ _ htext hsize _ => exact htext (hsize hverbatim)

theorem children : Interspersed (Commented rules) rules.kinds (rules.room n.kind) n.children
    m.children := by
  cases h
  assumption

theorem rel_field? (name : String) :
    Option.Rel (Commented rules) (n.field? name) (m.field? name) := by
  apply h.children.rel_find?
  · intro c d hcd
    rw [hcd.field_eq]
  · intro c _ hfield
    rw [hfield]
    rfl

theorem rel_text_field? {name : String}
    (hverbatim : ∀ c ∈ n.children, c.label.field = some name → rules.verbatim c = true) :
    Option.Rel (fun c d => c.text = d.text) (n.field? name) (m.field? name) := by
  have hfield := h.rel_field? name
  generalize m.field? name = d at hfield
  cases hn : n.field? name with
  | none =>
    rw [hn] at hfield
    cases hfield
    exact .none
  | some c =>
    have hc := List.mem_of_find?_eq_some hn
    have hrole := List.find?_some hn
    rw [hn] at hfield
    cases hfield with
    | some hcd => exact .some (hcd.text_eq (hverbatim c hc (eq_of_beq hrole)))

theorem fieldText?_eq {name : String}
    (hverbatim : ∀ c ∈ n.children, c.label.field = some name → rules.verbatim c = true) :
    n.fieldText? name = m.fieldText? name := by
  have htext := h.rel_text_field? hverbatim
  unfold Node.fieldText?
  generalize n.field? name = c, m.field? name = d at htext
  cases htext with
  | none => rfl
  | some htext => exact congrArg some htext

theorem rel_firstNamedChild? (hroom : rules.room n.kind ≠ .anywhere) :
    Option.Rel (Commented rules) n.firstNamedChild? m.firstNamedChild? := by
  unfold Node.firstNamedChild? Node.namedChildren
  rw [List.head?_filter, List.head?_filter]
  exact h.children.rel_find?_isNamed (fun _ _ hcd => hcd.isNamed_eq) hroom

theorem forall₂_namedChildrenExcept {kinds : List String} (hkinds : ∀ k ∈ rules.kinds, k ∈ kinds) :
    List.Forall₂ (Commented rules) (n.namedChildrenExcept kinds) (m.namedChildrenExcept kinds) := by
  unfold Node.namedChildrenExcept Node.namedChildren
  rw [List.filter_filter, List.filter_filter]
  apply h.children.forall₂_filter
  · intro c d hcd
    rw [hcd.kind_eq, hcd.isNamed_eq]
  · intro c hkind _
    rw [List.contains_iff_mem.2 (hkinds _ hkind)]
    rfl

theorem forall₂_namedChildren (hroom : rules.room n.kind = .nowhere) :
    List.Forall₂ (Commented rules) n.namedChildren m.namedChildren :=
  h.children.forall₂_filter_of_nowhere (fun _ _ hcd => hcd.isNamed_eq) hroom

theorem hasChildKind_eq {kind : String} (hkind : kind ∉ rules.kinds) :
    n.hasChildKind kind = m.hasChildKind kind := by
  apply h.children.any_eq
  · intro c d hcd
    rw [hcd.kind_eq]
  · intro c hc
    rw [beq_eq_false_iff_ne]
    intro heq
    rw [heq] at hc
    exact hkind hc

end Commented

theorem map_text_eq {rules : CommentRules} {ns ms : List Node}
    (h : List.Forall₂ (Commented rules) ns ms) (hverbatim : ∀ n ∈ ns, rules.verbatim n = true) :
    ns.map Node.text = ms.map Node.text := by
  apply map_eq_map_of_forall₂ h
  intro n hn m hnm
  exact hnm.text_eq (hverbatim n hn)

theorem any_eq_of_forall₂ {rules : CommentRules} {ns ms : List Node} {p : Node → Bool}
    (hp : ∀ n m, Commented rules n m → p n = p m) (h : List.Forall₂ (Commented rules) ns ms) :
    ns.any p = ms.any p := by
  induction h with
  | nil => rfl
  | cons hnm _ ih => rw [List.any_cons, List.any_cons, hp _ _ hnm, ih]

theorem any_eq_of_rel {rules : CommentRules} {n m : Option Node} {p : Node → Bool}
    (hp : ∀ n m, Commented rules n m → p n = p m) (h : Option.Rel (Commented rules) n m) :
    n.any p = m.any p := by
  cases h with
  | none => rfl
  | some hnm => exact hp _ _ hnm

/--
Whether the second list is the first one with comments in between.
-/
def aligned (same : Node → Node → Bool) (kinds : List String) :
    Room → List Node → List Node → Bool
  | _, ns, [] => ns.isEmpty
  | room, ns, m :: ms =>
    (room == .anywhere && kinds.contains m.kind && m.label.field == none
      && aligned same kinds .anywhere ns ms)
    || match ns with
      | n :: ns => same n m && aligned same kinds (room.after n.isNamed) ns ms
      | [] => false

/--
Whether `m` is `n` with comments added, for trees of at most the given height.
-/
def isCommented (rules : CommentRules) : (height : Nat) → Node → Node → Bool
  | 0, _, _ => false
  | height + 1, n, m =>
    n.kind == m.kind && n.isNamed == m.isNamed && n.label.field == m.label.field
      && n.trail rules.kinds == m.trail rules.kinds && (n.size != m.size || n.text == m.text)
      && (!rules.verbatim n || n.size == m.size)
      && aligned (isCommented rules height) rules.kinds (rules.room n.kind) n.children m.children

theorem interspersed_of_aligned {R : Node → Node → Prop} {same : Node → Node → Bool}
    (hsame : ∀ n m, same n m = true → R n m) {kinds : List String} {room : Room}
    {ns ms : List Node} (h : aligned same kinds room ns ms = true) :
    Interspersed R kinds room ns ms := by
  induction ms generalizing room ns with
  | nil =>
    rw [aligned, List.isEmpty_iff] at h
    rw [h]
    exact .nil
  | cons m ms ih =>
    unfold aligned at h
    rw [Bool.or_eq_true] at h
    rcases h with h | h
    · simp only [Bool.and_eq_true, beq_iff_eq, List.contains_iff_mem] at h
      obtain ⟨⟨⟨rfl, hkind⟩, hfield⟩, h⟩ := h
      exact .comment hkind hfield (ih h)
    · cases ns with
      | nil => cases h
      | cons n ns =>
        obtain ⟨hnm, h⟩ := Bool.and_eq_true_iff.1 h
        exact .both (hsame n m hnm) (ih h)

theorem commented_of_isCommented {rules : CommentRules} (height : Nat) {n m : Node}
    (h : isCommented rules height n m = true) : Commented rules n m := by
  induction height generalizing n m with
  | zero => cases h
  | succ height ih =>
    simp only [isCommented, Bool.and_eq_true, beq_iff_eq, Bool.or_eq_true, bne_iff_ne,
      Bool.not_eq_true'] at h
    obtain ⟨⟨⟨⟨⟨⟨hkind, hnamed⟩, hfield⟩, htrail⟩, htext⟩, hverbatim⟩, hchildren⟩ := h
    refine .mk hkind hnamed hfield htrail ?_ ?_ (interspersed_of_aligned (fun _ _ => ih) hchildren)
    · intro hsize
      exact htext.resolve_left fun hne => hne hsize
    · intro hv
      rw [hv] at hverbatim
      exact hverbatim.resolve_left Bool.noConfusion

end Polyglot
