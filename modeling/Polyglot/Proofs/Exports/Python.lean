import Mathlib.Data.List.Forall2
import Mathlib.Data.Option.Basic
import Polyglot.Extract.Linkage.Python
import Polyglot.Proofs.Quoting
import Polyglot.Proofs.Visibility.Basic

/-!
This module contains the names that a module lists in `__all__`. The value of `__all__` is that of
the last assignment, followed by what is added to it later. Lists and tuples of literals are read
in full, but what they are joined from by `+` is not looked at.
-/

namespace Polyglot.Python

/--
The quotes of strings.
-/
def stringQuotes : List (List Char) := ["\"\"\"", "'''", "\"", "'"].map String.toList

/--
A literal that stands for `name` as it is written: it has no escapes, unless they are kept.
-/
structure Literal where
  mark : List Char
  quote : List Char
  name : String
  mark_mem : ∀ c ∈ mark, c ∈ ['r', 'R', 'u', 'U']
  quote_mem : quote ∈ stringQuotes
  closed : ¬ quote <:+: name.toList
  verbatim : '\\' ∈ name.toList → 'r' ∈ mark ∨ 'R' ∈ mark

namespace Literal

def text (l : Literal) : String :=
  String.ofList (l.mark ++ (l.quote ++ (l.name.toList ++ l.quote)))

def IsAt (l : Literal) (n : Node) : Prop :=
  n.kind = "string" ∧ ¬ isInterpolated n ∧ n.text = l.text

/--
A name in single quotes.
-/
def quoted (name : String) (closed : ¬ ['\''] <:+: name.toList) (verbatim : '\\' ∉ name.toList) :
    Literal where
  mark := []
  quote := ['\'']
  name
  mark_mem := List.forall_mem_nil _
  quote_mem := List.mem_map.2 ⟨"'", .tail _ (.tail _ (.tail _ (.head _))), rfl⟩
  closed
  verbatim h := absurd h verbatim

theorem unquote_text (l : Literal) : Text.unquote l.text = l.name := by
  have hmark : ∀ c ∈ l.mark, c.isAlpha := by
    intro c hc
    have hletter := l.mark_mem c hc
    simp only [List.mem_cons, List.not_mem_nil, or_false] at hletter
    rcases hletter with rfl | rfl | rfl | rfl
    all_goals rfl
  have hquote : l.quote ∈ Text.quotes := by
    have hsub : stringQuotes ⊆ Text.quotes := by decide
    exact hsub l.quote_mem
  have hhead : l.quote.length = 1 → l.name.toList.head? ≠ l.quote.head? := by
    intro hlength heq
    obtain ⟨q, hq⟩ := List.length_eq_one_iff.1 hlength
    apply l.closed
    rw [hq, List.head?_cons] at heq
    rw [hq]
    obtain ⟨before, after, hsplit⟩ := List.append_of_mem (List.mem_of_head? heq)
    exact ⟨before, after, by rw [hsplit, List.append_assoc, List.singleton_append]⟩
  rw [Text.unquote, text, String.toList_ofList, Text.unquoteChars_literal hmark hquote hhead,
    String.ofList_toList]

end Literal

/--
An expression that has a list of names as its value.
-/
inductive NameList where
  | display (literals : List Literal)
  | concat (left right : NameList)
  | parens (inner : NameList)

namespace NameList

def names : NameList → List String
  | display literals => literals.map (·.name)
  | concat left right => left.names ++ right.names
  | parens inner => inner.names

def isDisplay : NameList → Bool
  | display _ => true
  | _ => false

/--
The lists and tuples. A tuple may stand without parentheses.
-/
def displayKinds : List String := ["list", "tuple", "expression_list"]

/--
The node is the syntax tree of the expression. Comments may stand anywhere.
-/
inductive IsAt : NameList → Node → Prop
  | display {n : Node} {literals : List Literal} (hkind : n.kind ∈ displayKinds)
    (hitems : List.Forall₂ Literal.IsAt literals (n.namedChildrenExcept commentKinds)) :
    IsAt (.display literals) n
  | concat {n l r : Node} {left right : NameList} (hkind : n.kind = "binary_operator")
    (hoperator : n.fieldText? "operator" = some "+")
    (hitems : n.namedChildrenExcept commentKinds = [l, r]) (hleft : IsAt left l)
    (hright : IsAt right r) : IsAt (.concat left right) n
  | parens {n m : Node} {inner : NameList} (hkind : n.kind = "parenthesized_expression")
    (hitems : n.namedChildrenExcept commentKinds = [m]) (hinner : IsAt inner m) :
    IsAt (.parens inner) n

theorem IsAt.kind_ne {e : NameList} {n : Node} (h : e.IsAt n) : n.kind ≠ "string" := by
  cases h with
  | display hkind =>
    intro hstring
    rw [hstring] at hkind
    exact absurd hkind (by decide)
  | concat hkind =>
    rw [hkind]
    decide
  | parens hkind =>
    rw [hkind]
    decide

end NameList

theorem filter_string_namedChildren (n : Node) :
    n.namedChildren.filter (·.kind == "string") =
      (n.namedChildrenExcept commentKinds).filter (·.kind == "string") := by
  rw [Node.namedChildrenExcept, List.filter_filter]
  apply List.filter_congr
  intro c _
  by_cases hc : c.kind = "string"
  · simp [hc, commentKinds]
  · simp [hc]

theorem map_unquote_of_isAt {literals : List Literal} {ns : List Node}
    (h : List.Forall₂ Literal.IsAt literals ns) :
    (ns.filter (·.kind == "string")).map (Text.unquote ·.text) = literals.map (·.name) := by
  induction h with
  | nil => rfl
  | @cons l n _ _ hl _ ih =>
    obtain ⟨hkind, -, htext⟩ := hl
    have hstring : (n.kind == "string") = true := beq_iff_eq.2 hkind
    rw [List.filter_cons, if_pos hstring, List.map_cons, List.map_cons, ih, htext, l.unquote_text]

namespace NameList

/--
The names that are read off an expression.
-/
def namesRead (e : NameList) : List String := if e.isDisplay then e.names else []

theorem IsAt.namesRead_eq {e : NameList} {n : Node} (h : e.IsAt n) :
    (n.namedChildren.filter (·.kind == "string")).map (Text.unquote ·.text) = e.namesRead := by
  rw [filter_string_namedChildren]
  cases h with
  | display _ hitems => exact map_unquote_of_isAt hitems
  | concat _ _ hitems hleft hright =>
    -- The parts of a sum are lists, tuples or sums, but never literals.
    have hl := beq_eq_false_iff_ne.2 hleft.kind_ne
    have hr := beq_eq_false_iff_ne.2 hright.kind_ne
    rw [hitems]
    simp [hl, hr, namesRead, isDisplay]
  | parens _ hitems hinner =>
    have hm := beq_eq_false_iff_ne.2 hinner.kind_ne
    rw [hitems]
    simp [hm, namesRead, isDisplay]

end NameList

/--
A statement of a module, as far as it matters to `__all__`.
-/
inductive Statement where
  | assign (e : NameList)
  | augment (e : NameList)
  | other

namespace Statement

def isListing : Statement → Bool
  | other => false
  | _ => true

/--
The expressions that make up the value of `__all__`, with one more statement.
-/
def addTo (es : List NameList) : Statement → List NameList
  | assign e => [e]
  | augment e => es ++ [e]
  | other => es

/--
The expression of the last assignment to `__all__` and those that are added to it later.
-/
def value (ss : List Statement) : List NameList := ss.foldl addTo []

def assignmentKinds : List String := ["assignment", "augmented_assignment"]

/--
The node is the syntax tree of the statement. In a statement of another kind, `__all__` is not the
target of an assignment, not even of one inside a chain of assignments.
-/
inductive IsAt : Statement → Node → Prop
  | assign {n a r : Node} {e : NameList} (hkind : n.kind = "expression_statement")
    (hfirst : n.firstNamedChild? = some a) (hassign : a.kind = "assignment")
    (hleft : a.fieldText? "left" = some "__all__") (hright : a.field? "right" = some r)
    (he : e.IsAt r) : IsAt (.assign e) n
  | augment {n a r : Node} {e : NameList} (hkind : n.kind = "expression_statement")
    (hfirst : n.firstNamedChild? = some a) (haugment : a.kind = "augmented_assignment")
    (hoperator : a.fieldText? "operator" = some "+=")
    (hleft : a.fieldText? "left" = some "__all__") (hright : a.field? "right" = some r)
    (he : e.IsAt r) : IsAt (.augment e) n
  | other {n : Node} (h : n.kind = "expression_statement" → ∀ a ∈ n.firstNamedChild?,
      ∀ m ∈ a.preorder, m.kind ∈ assignmentKinds → m.fieldText? "left" = some "__all__" →
      m.field? "right" = none) : IsAt .other n

/--
What is read off a statement: whether it replaces the names listed before, and its own names.
-/
def read : Statement → Option (Bool × List String)
  | assign e => some (true, e.namesRead)
  | augment e => some (false, e.namesRead)
  | other => none

variable {s : Statement} {n : Node}

theorem of_listing? {found : Bool × List String} (h : listing? n = some found) :
    n.kind = "expression_statement" ∧ ∃ a, n.firstNamedChild? = some a ∧
      a.kind ∈ assignmentKinds ∧ a.fieldText? "left" = some "__all__" ∧
      ∃ r, a.field? "right" = some r := by
  simp only [listing?, Option.bind_eq_bind, Option.bind_eq_some_iff] at h
  obtain ⟨_, hkind, a, hfirst, _, hassign, _, hleft, r, hright, -⟩ := h
  rw [Option.guard_eq_some'] at hkind hassign hleft
  exact ⟨hkind, a, hfirst, List.contains_iff_mem.1 hassign, hleft, r, hright⟩

theorem IsAt.listing?_eq (h : s.IsAt n) : listing? n = s.read := by
  cases h with
  | assign hkind hfirst hassign hleft hright he =>
    simp [listing?, hkind, hfirst, hassign, hleft, hright, read, ← he.namesRead_eq]
  | augment hkind hfirst haugment _ hleft hright he =>
    simp [listing?, hkind, hfirst, haugment, hleft, hright, read, ← he.namesRead_eq]
  | other h =>
    cases hlisting : listing? n with
    | none => rfl
    | some found =>
      obtain ⟨hkind, a, hfirst, hassign, hleft, r, hright⟩ := of_listing? hlisting
      rw [h hkind a hfirst a (Node.mem_preorder_self a) hassign hleft] at hright
      cases hright

/--
Adding a statement to the list so far adds its expression to the value of `__all__`.
-/
theorem IsAt.addListing (h : s.IsAt n) {found : Option (UInt32 × List String)} {es : List NameList}
    (hfound : (found.map (·.2)).getD [] = es.flatMap NameList.namesRead) :
    ((addListing found n).map (·.2)).getD [] = (s.addTo es).flatMap NameList.namesRead ∧
      (addListing found n).isSome = (found.isSome || s.isListing) := by
  have hlisting := h.listing?_eq
  cases s with
  | assign e => simp [Python.addListing, hlisting, read, addTo, isListing]
  | augment e =>
    simp only [Python.addListing, hlisting, read, addTo, isListing, List.flatMap_append, ← hfound]
    cases found with
    | none => simp
    | some found => simp
  | other =>
    simp only [Python.addListing, hlisting, read, addTo, isListing, Bool.or_false, and_true]
    exact hfound

theorem foldl_addListing {ss : List Statement} {ns : List Node} (h : List.Forall₂ IsAt ss ns)
    (found : Option (UInt32 × List String)) (es : List NameList)
    (hfound : (found.map (·.2)).getD [] = es.flatMap NameList.namesRead) :
    ((ns.foldl Python.addListing found).map (·.2)).getD [] =
        (ss.foldl addTo es).flatMap NameList.namesRead ∧
      (ns.foldl Python.addListing found).isSome = (found.isSome || ss.any isListing) := by
  induction h generalizing found es with
  | nil => exact ⟨hfound, (Bool.or_false _).symm⟩
  | cons hs _ ih =>
    obtain ⟨hnames, hsome⟩ := hs.addListing hfound
    obtain ⟨hall, hany⟩ := ih _ _ hnames
    rw [List.foldl_cons, List.foldl_cons, List.any_cons, ← Bool.or_assoc, ← hsome]
    exact ⟨hall, hany⟩

end Statement

namespace NameList

theorem length_namesRead_le (e : NameList) : e.namesRead.length ≤ e.names.length := by
  unfold namesRead
  split
  · exact Nat.le_refl _
  · exact Nat.zero_le _

theorem namesRead_eq_names_iff (e : NameList) :
    e.namesRead = e.names ↔ e.isDisplay ∨ e.names = [] := by
  unfold namesRead
  split
  · next h => simp [h]
  · next h =>
    rw [or_iff_right h]
    exact eq_comm

theorem length_flatMap_namesRead_le (es : List NameList) :
    (es.flatMap namesRead).length ≤ (es.flatMap names).length := by
  induction es with
  | nil => exact Nat.le_refl _
  | cons e es ih =>
    have he := e.length_namesRead_le
    rw [List.flatMap_cons, List.flatMap_cons, List.length_append, List.length_append]
    omega

/--
No name is lost if and only if each expression is a list or a tuple, or has no names.
-/
theorem flatMap_namesRead_eq_iff (es : List NameList) :
    es.flatMap namesRead = es.flatMap names ↔ ∀ e ∈ es, e.isDisplay ∨ e.names = [] := by
  induction es with
  | nil => simp
  | cons e es ih =>
    rw [List.flatMap_cons, List.flatMap_cons, List.forall_mem_cons, ← ih, ← namesRead_eq_names_iff]
    constructor
    · intro heq
      -- Neither part can be longer than its counterpart, so the lists are cut at the same place.
      have hhead := e.length_namesRead_le
      have htail := length_flatMap_namesRead_le es
      have hlength := congrArg List.length heq
      rw [List.length_append, List.length_append] at hlength
      exact List.append_inj heq (by omega)
    · rintro ⟨hhead, htail⟩
      rw [hhead, htail]

end NameList

open Statement in
/--
A module that assigns or augments `__all__` has one export, with the names of the lists and tuples
in the value of `__all__`. These are all its names if and only if the value is not joined from parts
that have names.
-/
theorem exports_of_listing_iff {root : Node} {ss : List Statement}
    (h : List.Forall₂ Statement.IsAt ss root.namedChildren) (hlisting : ∃ s ∈ ss, s.isListing) :
    ∃ e, exports root = [e] ∧ e.source = none ∧ e.isTypeOnly = false ∧
      e.bindings = ((value ss).flatMap NameList.namesRead).map .same ∧
      (e.bindings = ((value ss).flatMap NameList.names).map .same ↔
        ∀ x ∈ value ss, x.isDisplay ∨ x.names = []) := by
  obtain ⟨hnames, hsome⟩ := foldl_addListing h none [] rfl
  have hany : ss.any isListing := List.any_eq_true.2 hlisting
  rw [hany, Bool.or_true] at hsome
  obtain ⟨⟨line, names⟩, hlisted⟩ := Option.isSome_iff_exists.1 hsome
  rw [hlisted] at hnames
  have hnames : names = (value ss).flatMap NameList.namesRead := hnames
  have hexports : exports root =
      [{ source := none, bindings := names.map .same, line, isTypeOnly := false }] := by
    rw [exports, listed?, hlisted]
  refine ⟨_, hexports, rfl, rfl, by rw [hnames], ?_⟩
  rw [Binding.map_same_inj, hnames]
  exact NameList.flatMap_namesRead_eq_iff _

/--
The tree of a module with an assignment to `__all__`, another statement and an augmentation. There
is a comment in the list that is assigned.
-/
def augmentedListing : Node :=
  .root (.ofString "__all__ = ['a', # c\n 'b']\nx = 1\n__all__ += ('c',)") <|
    .node ⟨"module", true, false, none, 0, 49⟩ [
      .node ⟨"expression_statement", true, false, none, 0, 25⟩ [
        .node ⟨"assignment", true, false, none, 0, 25⟩ [
          .node ⟨"identifier", true, false, some "left", 0, 7⟩ [],
          .node ⟨"list", true, false, some "right", 10, 25⟩ [
            .node ⟨"string", true, false, none, 11, 14⟩ [],
            .node ⟨"comment", true, false, none, 16, 19⟩ [],
            .node ⟨"string", true, false, none, 21, 24⟩ []]]],
      .node ⟨"expression_statement", true, false, none, 26, 31⟩ [
        .node ⟨"assignment", true, false, none, 26, 31⟩ [
          .node ⟨"identifier", true, false, some "left", 26, 27⟩ [],
          .node ⟨"integer", true, false, some "right", 30, 31⟩ []]],
      .node ⟨"expression_statement", true, false, none, 32, 49⟩ [
        .node ⟨"augmented_assignment", true, false, none, 32, 49⟩ [
          .node ⟨"identifier", true, false, some "left", 32, 39⟩ [],
          .node ⟨"+=", false, false, some "operator", 40, 42⟩ [],
          .node ⟨"tuple", true, false, some "right", 43, 49⟩ [
            .node ⟨"string", true, false, none, 44, 47⟩ []]]]]

theorem augmentedListing_exported :
    ∃ ss, List.Forall₂ Statement.IsAt ss augmentedListing.namedChildren ∧
      (∃ s ∈ ss, s.isListing) ∧
      ∃ e, exports augmentedListing = [e] ∧ e.bindings = [.same "a", .same "b", .same "c"] := by
  let first : NameList :=
    .display [.quoted "a" (by decide) (by decide), .quoted "b" (by decide) (by decide)]
  let second : NameList := .display [.quoted "c" (by decide) (by decide)]
  have h : List.Forall₂ Statement.IsAt [.assign first, .other, .augment second]
      augmentedListing.namedChildren := by
    refine .cons (.assign rfl rfl rfl ?_ rfl (.display ?_ (.cons ?_ (.cons ?_ .nil))))
      (.cons (.other ?_)
        (.cons (.augment rfl rfl rfl ?_ ?_ rfl (.display ?_ (.cons ?_ .nil))) .nil))
    case refine_5 =>
      rintro - a ha
      cases ha
      decide +kernel
    case refine_3 | refine_4 | refine_9 =>
      exact ⟨rfl, by decide +kernel, by decide +kernel⟩
    all_goals decide +kernel
  have hlisting : ∃ s ∈ [Statement.assign first, .other, .augment second], s.isListing :=
    ⟨_, List.mem_cons_self, rfl⟩
  obtain ⟨e, hexports, -, -, -, hiff⟩ := exports_of_listing_iff h hlisting
  refine ⟨_, h, hlisting, e, hexports, ?_⟩
  rw [hiff.2]
  · rfl
  · intro x hx
    rcases List.mem_pair.1 hx with rfl | rfl
    · exact .inl rfl
    · exact .inl rfl

/--
The tree of a module that assigns the sum of two lists to `__all__`.
-/
def joinedListing : Node :=
  .root (.ofString "__all__ = ['a'] + ['b']") <|
    .node ⟨"module", true, false, none, 0, 23⟩ [
      .node ⟨"expression_statement", true, false, none, 0, 23⟩ [
        .node ⟨"assignment", true, false, none, 0, 23⟩ [
          .node ⟨"identifier", true, false, some "left", 0, 7⟩ [],
          .node ⟨"binary_operator", true, false, some "right", 10, 23⟩ [
            .node ⟨"list", true, false, some "left", 10, 15⟩ [
              .node ⟨"string", true, false, none, 11, 14⟩ []],
            .node ⟨"+", false, false, some "operator", 16, 17⟩ [],
            .node ⟨"list", true, false, some "right", 18, 23⟩ [
              .node ⟨"string", true, false, none, 19, 22⟩ []]]]]]

theorem joined_names_not_exported :
    ∃ e : NameList, e.names = ["a", "b"] ∧
      List.Forall₂ Statement.IsAt [.assign e] joinedListing.namedChildren ∧
      (exports joinedListing).map (·.bindings) = [[]] := by
  refine ⟨.concat (.display [.quoted "a" (by decide) (by decide)])
    (.display [.quoted "b" (by decide) (by decide)]), rfl, ?_, by decide +kernel⟩
  refine .cons (.assign rfl rfl rfl ?_ rfl (.concat rfl ?_ rfl
    (.display ?_ (.cons ?_ .nil)) (.display ?_ (.cons ?_ .nil)))) .nil
  case refine_4 | refine_6 =>
    exact ⟨rfl, by decide +kernel, by decide +kernel⟩
  all_goals decide +kernel

end Polyglot.Python
