import Polyglot.Extract.Facts
import Polyglot.Proofs.Tree.Preorder

/-!
This module contains where a grammar looks: all that it reads off a node as the step of a chain or
as the shape of an argument is inside the node, and the arguments of a list stand in source order.
-/

namespace Polyglot

namespace Node

theorem mem_preorder_of_child {n c : Node} (h : c ∈ n.children) : c ∈ n.preorder :=
  mem_preorder_of_mem_children h (mem_preorder_self c)

theorem mem_preorder_of_field {n c : Node} {name : String} (h : n.field? name = some c) :
    c ∈ n.preorder :=
  mem_preorder_of_child (List.mem_of_find?_eq_some h)

theorem mem_preorder_of_firstNamedChild {n c : Node} (h : n.firstNamedChild? = some c) :
    c ∈ n.preorder :=
  mem_preorder_of_child (mem_children_of_mem_namedChildren (List.mem_of_head? h))

theorem mem_preorder_of_namedChildrenExcept {n c : Node} {kinds : List String}
    (h : c ∈ n.namedChildrenExcept kinds) : c ∈ n.preorder :=
  mem_preorder_of_child (mem_children_of_mem_namedChildren (List.mem_filter.1 h).1)

theorem sublist_namedChildrenExcept (n : Node) (kinds : List String) :
    (n.namedChildrenExcept kinds).Sublist n.children :=
  List.filter_sublist.trans List.filter_sublist

theorem self_or_sublist (n : Node) (p : Prop) [Decidable p] (kinds : List String) :
    (if p then [n] else n.namedChildrenExcept kinds) = [n] ∨
      (if p then [n] else n.namedChildrenExcept kinds).Sublist n.children := by
  split
  · exact .inl rfl
  · exact .inr (sublist_namedChildrenExcept n kinds)

end Node

/--
The nodes that a step of a chain is made of.
-/
def ChainStep.nodes : ChainStep → List Node
  | methodCall name list receiver => name :: receiver :: list.toList
  | freeCall name list => name :: list.toList
  | pathCall path name list => name :: (path.toList ++ list.toList)
  | macroCall path name => name :: path.toList
  | invoke callee list => callee :: list.toList
  | field name base => [name, base]
  | suspend _ operand => [operand]
  | transparent inner => [inner]
  | terminal | unclassified => []

def ObjectEntry.node : ObjectEntry → Node
  | pair _ value => value
  | shorthand _ node => node
  | unclassified node => node

/--
The nodes that the shape of an argument is made of.
-/
def ArgShape.nodes : ArgShape → List Node
  | object entries => entries.map ObjectEntry.node
  | array items => items
  | keyword _ value => [value]
  | wrapped inner => [inner]
  | _ => []

/--
What a grammar reads off a node is inside the node. The arguments of a list are among its children,
unless the list is an argument itself.
-/
structure Grammar.ReadsInside (g : Grammar) : Prop where
  chain : ∀ n, ∀ m ∈ (g.classifyChain n).nodes, m ∈ n.preorder
  argument : ∀ n, ∀ m ∈ (g.classifyArg n).nodes, m ∈ n.preorder
  arguments : ∀ n, g.argumentNodes n = [n] ∨ (g.argumentNodes n).Sublist n.children

theorem ArgShape.eq_some_of_mem_ofInner {inner : Option Node} {m : Node}
    (h : m ∈ (ofInner inner).nodes) : inner = some m := by
  cases inner with
  | none => cases h
  | some inner => exact congrArg some (List.mem_singleton.1 h).symm

namespace ChainStep

variable {m : Node}

theorem eq_some_of_mem_ofInner {inner : Option Node} (h : m ∈ (ofInner inner).nodes) :
    inner = some m := by
  cases inner with
  | none => cases h
  | some inner => exact congrArg some (List.mem_singleton.1 h).symm

theorem eq_some_of_mem_ofOperand {mark : String} {operand : Option Node}
    (h : m ∈ (ofOperand mark operand).nodes) : operand = some m := by
  cases operand with
  | none => cases h
  | some operand => exact congrArg some (List.mem_singleton.1 h).symm

theorem mem_preorder_of_mem_ofField {n : Node} {name base : String}
    (h : m ∈ (ofField (n.field? name) (n.field? base)).nodes) : m ∈ n.preorder := by
  unfold ofField at h
  split at h
  · next hname hbase =>
    rcases List.mem_cons.1 h with rfl | h
    · exact Node.mem_preorder_of_field hname
    · rw [List.mem_singleton.1 h]
      exact Node.mem_preorder_of_field hbase
  · cases h

theorem mem_ofMethod {callee : Node} {list name receiver : Option Node}
    (h : m ∈ (ofMethod callee list name receiver).nodes) :
    m = callee ∨ list = some m ∨ name = some m ∨ receiver = some m := by
  unfold ofMethod at h
  split at h
  · simp only [nodes, List.mem_cons, Option.mem_toList] at h
    rcases h with rfl | rfl | h
    · exact .inr (.inr (.inl rfl))
    · exact .inr (.inr (.inr rfl))
    · exact .inr (.inl h)
  · simp only [nodes, List.mem_cons, Option.mem_toList] at h
    exact h.imp_right .inl

theorem mem_callee {callee : Node} {list : Option Node} (h : m ∈ callee :: list.toList) :
    m ∈ callee.preorder ∨ list = some m := by
  rcases List.mem_cons.1 h with rfl | h
  · exact .inl (Node.mem_preorder_self m)
  · exact .inr (Option.mem_toList.1 h)

theorem mem_callee_of_mem_ofMethod {callee : Node} {list : Option Node} {name receiver : String}
    (h : m ∈ (ofMethod callee list (callee.field? name) (callee.field? receiver)).nodes) :
    m ∈ callee.preorder ∨ list = some m := by
  rcases mem_ofMethod h with rfl | h | h | h
  · exact .inl (Node.mem_preorder_self m)
  · exact .inr h
  · exact .inl (Node.mem_preorder_of_field h)
  · exact .inl (Node.mem_preorder_of_field h)

theorem mem_preorder_of_callee {n callee : Node} {name list : String}
    (hcallee : n.field? name = some callee) (h : m ∈ callee.preorder ∨ n.field? list = some m) :
    m ∈ n.preorder := by
  rcases h with h | h
  · exact Node.mem_preorder_trans h (Node.mem_preorder_of_field hcallee)
  · exact Node.mem_preorder_of_field h

end ChainStep

section Grammars

variable {n m : Node}

open Node

namespace Python

theorem mem_calleeStep {callee : Node} {list : Option Node}
    (h : m ∈ (calleeStep callee list).nodes) : m ∈ callee.preorder ∨ list = some m := by
  unfold calleeStep at h
  split at h
  · exact ChainStep.mem_callee_of_mem_ofMethod h
  all_goals exact ChainStep.mem_callee h

theorem mem_classifyChain (h : m ∈ (classifyChain n).nodes) : m ∈ n.preorder := by
  unfold classifyChain at h
  split at h
  · split at h
    · next callee hcallee => exact ChainStep.mem_preorder_of_callee hcallee (mem_calleeStep h)
    · cases h
  · exact ChainStep.mem_preorder_of_mem_ofField h
  · exact mem_preorder_of_field (ChainStep.eq_some_of_mem_ofInner h)
  · exact mem_preorder_of_firstNamedChild (ChainStep.eq_some_of_mem_ofOperand h)
  · exact mem_preorder_of_firstNamedChild (ChainStep.eq_some_of_mem_ofInner h)
  · cases h
  · cases h

theorem node_dictionaryEntry (n : Node) : (dictionaryEntry n).node ∈ n.preorder := by
  unfold dictionaryEntry
  split
  · split
    · next value hvalue => exact mem_preorder_of_field hvalue
    · exact mem_preorder_self n
  · exact mem_preorder_self n

theorem mem_classifyArg (h : m ∈ (classifyArg n).nodes) : m ∈ n.preorder := by
  unfold classifyArg at h
  split at h
  iterate 2
    · split at h
      · cases h
      · cases h
  iterate 2 cases h
  · split at h
    · cases h
    · cases h
  iterate 4 cases h
  · rw [ArgShape.nodes, List.map_map, List.mem_map] at h
    obtain ⟨e, he, rfl⟩ := h
    exact mem_preorder_trans (node_dictionaryEntry e) (mem_preorder_of_namedChildrenExcept he)
  iterate 3 exact mem_preorder_of_namedChildrenExcept h
  · split at h
    · next value _ hvalue =>
      rw [List.mem_singleton.1 h]
      exact mem_preorder_of_field hvalue
    · cases h
  · exact mem_preorder_of_firstNamedChild (ArgShape.eq_some_of_mem_ofInner h)
  · cases h

theorem readsInside : grammar.ReadsInside where
  chain _ _ := mem_classifyChain
  argument _ _ := mem_classifyArg
  arguments n := self_or_sublist n _ _

end Python

namespace TypeScript

theorem mem_calleeStep {callee : Node} {list : Option Node}
    (h : m ∈ (calleeStep callee list).nodes) : m ∈ callee.preorder ∨ list = some m := by
  unfold calleeStep at h
  split at h
  · exact ChainStep.mem_callee_of_mem_ofMethod h
  all_goals exact ChainStep.mem_callee h

theorem mem_classifyChain (h : m ∈ (classifyChain n).nodes) : m ∈ n.preorder := by
  unfold classifyChain at h
  split at h
  · split at h
    · next callee hcallee => exact ChainStep.mem_preorder_of_callee hcallee (mem_calleeStep h)
    · cases h
  · exact ChainStep.mem_preorder_of_mem_ofField h
  · exact mem_preorder_of_field (ChainStep.eq_some_of_mem_ofInner h)
  · exact mem_preorder_of_firstNamedChild (ChainStep.eq_some_of_mem_ofOperand h)
  iterate 4 exact mem_preorder_of_firstNamedChild (ChainStep.eq_some_of_mem_ofInner h)
  all_goals cases h

theorem node_objectEntry (n : Node) : (objectEntry n).node ∈ n.preorder := by
  unfold objectEntry
  split
  · split
    · next value _ hvalue => exact mem_preorder_of_field hvalue
    · exact mem_preorder_self n
  · exact mem_preorder_self n
  · exact mem_preorder_self n

theorem mem_classifyArg (h : m ∈ (classifyArg n).nodes) : m ∈ n.preorder := by
  unfold classifyArg at h
  split at h
  · cases h
  · split at h
    · cases h
    · cases h
  · cases h
  · split at h
    · cases h
    · cases h
  iterate 4 cases h
  · split at h
    · cases h
    · cases h
  · cases h
  · rw [ArgShape.nodes, List.map_map, List.mem_map] at h
    obtain ⟨e, he, rfl⟩ := h
    exact mem_preorder_trans (node_objectEntry e) (mem_preorder_of_namedChildrenExcept he)
  · exact mem_preorder_of_namedChildrenExcept h
  iterate 4 exact mem_preorder_of_firstNamedChild (ArgShape.eq_some_of_mem_ofInner h)
  · cases h

theorem readsInside : grammar.ReadsInside where
  chain _ _ := mem_classifyChain
  argument _ _ := mem_classifyArg
  arguments n := self_or_sublist n _ _

end TypeScript

namespace Rust

theorem mem_calleeStep {callee : Node} {list : Option Node}
    (h : m ∈ (calleeStep callee list).nodes) : m ∈ callee.preorder ∨ list = some m := by
  fun_induction calleeStep callee list with
  | case2 => exact ChainStep.mem_callee_of_mem_ofMethod h
  | case3 callee hkind name hname =>
    rcases List.mem_cons.1 h with rfl | h
    · exact .inl (mem_preorder_of_field hname)
    · rcases List.mem_append.1 h with h | h
      · exact .inl (mem_preorder_of_field (Option.mem_toList.1 h))
      · exact .inr (Option.mem_toList.1 h)
  | case5 callee hkind inner hinner ih =>
    exact (ih h).imp_left fun h => mem_preorder_trans h (mem_preorder_of_field hinner)
  | case1 | case4 | case6 | case7 => exact ChainStep.mem_callee h

theorem mem_classifyChain (h : m ∈ (classifyChain n).nodes) : m ∈ n.preorder := by
  unfold classifyChain at h
  split at h
  · split at h
    · next callee hcallee => exact ChainStep.mem_preorder_of_callee hcallee (mem_calleeStep h)
    · cases h
  · exact ChainStep.mem_preorder_of_mem_ofField h
  · split at h
    · next name hname =>
      have hname := mem_preorder_of_field hname
      split at h
      · split at h
        · next last hlast =>
          rcases List.mem_cons.1 h with rfl | h
          · exact mem_preorder_trans (mem_preorder_of_field hlast) hname
          · exact mem_preorder_trans (mem_preorder_of_field (Option.mem_toList.1 h)) hname
        · cases h
      · rw [List.mem_singleton.1 h]
        exact hname
    · cases h
  iterate 2 exact mem_preorder_of_firstNamedChild (ChainStep.eq_some_of_mem_ofOperand h)
  iterate 2 exact mem_preorder_of_firstNamedChild (ChainStep.eq_some_of_mem_ofInner h)
  all_goals cases h

theorem node_structEntry (n : Node) : (structEntry n).node ∈ n.preorder := by
  unfold structEntry
  split
  · split
    · next value _ hvalue => exact mem_preorder_of_field hvalue
    · exact mem_preorder_self n
  · split
    · exact mem_preorder_self n
    · exact mem_preorder_self n
  · exact mem_preorder_self n

theorem mem_classifyArg (h : m ∈ (classifyArg n).nodes) : m ∈ n.preorder := by
  unfold classifyArg at h
  split at h
  iterate 6 cases h
  · split at h
    · cases h
    · cases h
  · cases h
  · split at h
    · cases h
    · cases h
  iterate 2 cases h
  · split at h
    · next body hbody =>
      rw [ArgShape.nodes, List.map_map, List.mem_map] at h
      obtain ⟨e, he, rfl⟩ := h
      have he := mem_preorder_of_namedChildrenExcept he
      exact mem_preorder_trans (node_structEntry e)
        (mem_preorder_trans he (mem_preorder_of_field hbody))
    · cases h
  · split at h
    · cases h
    · exact mem_preorder_of_namedChildrenExcept h
  · exact mem_preorder_of_namedChildrenExcept h
  · exact mem_preorder_of_field (ArgShape.eq_some_of_mem_ofInner h)
  · exact mem_preorder_of_firstNamedChild (ArgShape.eq_some_of_mem_ofInner h)
  · cases h

theorem readsInside : grammar.ReadsInside where
  chain _ _ := mem_classifyChain
  argument _ _ := mem_classifyArg
  arguments n := .inr (sublist_namedChildrenExcept n _)

end Rust

end Grammars

theorem Language.readsInside (language : Language) : language.grammar.ReadsInside := by
  cases language with
  | rust => exact Rust.readsInside
  | typescript => exact TypeScript.readsInside
  | javascript => exact TypeScript.readsInside
  | python => exact Python.readsInside

end Polyglot
