import Mathlib.Data.List.Perm.Subperm
import Polyglot.Proofs.Unknowns

/-!
This module contains object literals as maps. The entries of a literal are added one by one, an
entry replaces an earlier one with the same key, and the properties are ordered by key. So a
literal keeps all of its entries if and only if their keys are different. For the dictionaries of
Python the keys are texts, whatever the key is in the program.
-/

namespace Polyglot

/--
The arguments that stand directly in an argument of the given kind.
-/
def ArgumentKind.parts : ArgumentKind → List Argument
  | .object properties => properties.map (·.2)
  | .array elements => elements
  | _ => []

theorem lookup_cons_ite {α : Type} (k : String) (p : String × α) (rest : List (String × α)) :
    (p :: rest).lookup k = if k = p.1 then some p.2 else rest.lookup k := by
  rw [List.lookup_cons]
  by_cases h : k = p.1
  · rw [if_pos h, beq_iff_eq.2 h]
  · rw [if_neg h, beq_eq_false_iff_ne.2 h]

theorem lookup_map_eq_find? {α β : Type} (name : β → String) (value : β → α) (k : String)
    (bs : List β) :
    (bs.map fun b => (name b, value b)).lookup k = (bs.find? (name · == k)).map value := by
  induction bs with
  | nil => rfl
  | cons b bs ih =>
    rw [List.map_cons, lookup_cons_ite, ih, List.find?_cons]
    by_cases h : k = name b
    · rw [if_pos h, beq_iff_eq.2 h.symm]
      rfl
    · rw [if_neg h, beq_eq_false_iff_ne.2 (Ne.symm h)]

section Properties

variable {α : Type} (key : String) (value : α) (properties : List (String × α))

theorem lookup_insertProperty (k : String) :
    (insertProperty key value properties).lookup k =
      if k = key then some value else properties.lookup k := by
  induction properties with
  | nil =>
    rw [insertProperty]
    exact lookup_cons_ite k (key, value) []
  | cons p rest ih =>
    rw [insertProperty]
    split
    · exact lookup_cons_ite k (key, value) (p :: rest)
    · split
      · next heq =>
        rw [lookup_cons_ite, lookup_cons_ite, heq]
        split
        · rfl
        · rfl
      · next hne =>
        rw [lookup_cons_ite, lookup_cons_ite, ih]
        split
        · next hk => rw [if_neg (hk ▸ Ne.symm hne)]
        · rfl

variable {properties}

theorem mem_insertProperty {p : String × α} (h : p ∈ insertProperty key value properties) :
    p = (key, value) ∨ p ∈ properties := by
  induction properties with
  | nil => simpa [insertProperty] using h
  | cons q rest ih =>
    rw [insertProperty] at h
    split at h
    · simpa using h
    · split at h
      · rcases List.mem_cons.1 h with h | h
        · exact .inl h
        · exact .inr (List.mem_cons_of_mem _ h)
      · rcases List.mem_cons.1 h with h | h
        · exact .inr (h ▸ List.mem_cons_self)
        · rcases ih h with h | h
          · exact .inl h
          · exact .inr (List.mem_cons_of_mem _ h)

theorem perm_insertProperty (h : key ∉ properties.map (·.1)) :
    (insertProperty key value properties).Perm ((key, value) :: properties) := by
  induction properties with
  | nil => exact .refl _
  | cons p rest ih =>
    rw [List.map_cons, List.mem_cons, not_or] at h
    rw [insertProperty, if_neg h.1]
    split
    · exact .refl _
    · exact ((ih h.2).cons p).trans (.swap _ _ _)

theorem sorted_insertProperty (h : properties.Pairwise (·.1 < ·.1)) :
    (insertProperty key value properties).Pairwise (·.1 < ·.1) := by
  induction properties with
  | nil => exact List.pairwise_singleton _ _
  | cons p rest ih =>
    obtain ⟨hp, hrest⟩ := List.pairwise_cons.1 h
    rw [insertProperty]
    split
    · next hlt =>
      refine List.pairwise_cons.2 ⟨?_, h⟩
      intro q hq
      rcases List.mem_cons.1 hq with rfl | hq
      · exact hlt
      · exact String.lt_trans hlt (hp q hq)
    · next hlt =>
      split
      · next heq =>
        subst key
        exact List.pairwise_cons.2 ⟨hp, hrest⟩
      · next hne =>
        refine List.pairwise_cons.2 ⟨?_, ih hrest⟩
        intro q hq
        rcases mem_insertProperty key value hq with rfl | hq
        · exact Std.lt_of_le_of_ne (String.not_lt.1 hlt) (Ne.symm hne)
        · exact hp q hq

end Properties

/--
The properties after further entries, each with its key, have been added.
-/
def addEntries (properties entries : List (String × α)) : List (String × α) :=
  entries.foldl (fun properties entry => insertProperty entry.1 entry.2 properties) properties

section Entries

variable {α : Type} (properties entries : List (String × α))

theorem lookup_addEntries (key : String) :
    (addEntries properties entries).lookup key =
      (entries.reverse.lookup key).or (properties.lookup key) := by
  induction entries generalizing properties with
  | nil => rfl
  | cons e rest ih =>
    have hstep : addEntries properties (e :: rest) =
        addEntries (insertProperty e.1 e.2 properties) rest := rfl
    rw [hstep, ih, lookup_insertProperty, List.reverse_cons, List.lookup_append, Option.or_assoc,
      lookup_cons_ite, List.lookup_nil]
    congr 1
    split
    · rfl
    · rfl

variable {properties entries}

theorem mem_addEntries {p : String × α} (h : p ∈ addEntries properties entries) :
    p ∈ properties ∨ p ∈ entries := by
  induction entries generalizing properties with
  | nil => exact .inl h
  | cons e rest ih =>
    rcases ih h with h | h
    · rcases mem_insertProperty e.1 e.2 h with rfl | h
      · exact .inr List.mem_cons_self
      · exact .inl h
    · exact .inr (List.mem_cons_of_mem _ h)

theorem sorted_addEntries (h : properties.Pairwise (·.1 < ·.1)) :
    (addEntries properties entries).Pairwise (·.1 < ·.1) := by
  induction entries generalizing properties with
  | nil => exact h
  | cons e rest ih => exact ih (sorted_insertProperty e.1 e.2 h)

theorem perm_addEntries (h : ((properties ++ entries).map (·.1)).Nodup) :
    (addEntries properties entries).Perm (properties ++ entries) := by
  induction entries generalizing properties with
  | nil =>
    rw [List.append_nil]
    exact .refl _
  | cons e rest ih =>
    have hmiddle : (properties ++ e :: rest).Perm (e :: (properties ++ rest)) := List.perm_middle
    have hnodup := (hmiddle.map (·.1)).nodup h
    have hfresh : e.1 ∉ properties.map (·.1) := by
      intro hmem
      apply (List.nodup_cons.1 hnodup).1
      rw [List.map_append]
      exact List.mem_append_left _ hmem
    have hinsert := (perm_insertProperty e.1 e.2 hfresh).append_right rest
    refine (ih ((hinsert.map (·.1)).nodup_iff.2 hnodup)).trans ?_
    exact hinsert.trans hmiddle.symm

/--
No entry is lost if and only if the keys are different.
-/
theorem length_addEntries_iff :
    (addEntries [] entries).length = entries.length ↔ (entries.map (·.1)).Nodup := by
  constructor
  · intro hlength
    have hkeys : ((addEntries [] entries).map (·.1)).Nodup := by
      rw [List.Nodup, List.pairwise_map]
      apply (sorted_addEntries List.Pairwise.nil).imp
      intro p q hpq heq
      exact String.lt_irrefl _ (heq ▸ hpq)
    have hsubset : (addEntries [] entries).map (·.1) ⊆ entries.map (·.1) := by
      apply List.map_subset
      intro p hp
      exact (mem_addEntries hp).resolve_left List.not_mem_nil
    have hperm := (List.subperm_of_subset hkeys hsubset).perm_of_length_le
      (by rw [List.length_map, List.length_map, hlength])
    exact hperm.nodup hkeys
  · intro hnodup
    have hperm : (addEntries [] entries).Perm ([] ++ entries) := perm_addEntries hnodup
    exact hperm.length_eq

end Entries

namespace Extract

open CountM

theorem value_kindOfShape_object {inner : Node → CountM Argument}
    (hinner : ∀ n, (inner n).Additive) (entries : List ObjectEntry) :
    (kindOfShape inner (.object entries)).value =
      .object (addEntries [] (entries.map fun e => (property inner e).value)) := by
  have hadd := additive_addProperty hinner
  have hstep : (fun properties e => (addProperty inner properties e).value) =
      fun properties e =>
        insertProperty (property inner e).value.1 (property inner e).value.2 properties := by
    funext properties e
    rw [value_addProperty hinner, value_property hinner]
  rw [kindOfShape, value_bind_pure (additive_foldlM hadd [] entries), value_foldlM hadd, hstep,
    addEntries, List.foldl_map]

theorem limitHits_argument (g : Grammar) (scope : Scope) (n : Node) :
    (argument g scope n).cost.limitHits = (argument g scope n).cost.depthLimitedArgs := by
  have hcost : (argument g scope n).cost = _ := (spendsIn_argument g scope n).2
  rw [hcost]
  exact (Nat.add_zero _).trans (Nat.zero_add _)

/--
Within the limit, what is nested in an argument is normalized like an argument by itself.
-/
theorem argument_of_limit_not_hit {g : Grammar} {scope : Scope} {n : Node}
    (h : (argument g scope n).cost.depthLimitedArgs = 0) :
    argument g scope n = (do
      let kind ← kindOfShape (argument g scope) (g.classifyArg n)
      return n.toArgument kind) := by
  let wider : Scope :=
    { scope with limits := { scope.limits with maxArgDepth := scope.limits.maxArgDepth + 1 } }
  have hle : scope.limits.maxArgDepth ≤ wider.limits.maxArgDepth := Nat.le_succ _
  have heq := (relaxes_argument g hle n).eq_of_limitHits (by rw [limitHits_argument, h])
  rw [← heq]
  exact argumentAt_succ g (scope.limits.maxArgDepth + 1) n

end Extract

namespace Python

open Extract CountM

/--
Whether a key is a name, a number, a truth value or a string without expressions inside.
-/
def isPlainKey (key : Node) : Bool :=
  ["identifier", "integer", "float", "true", "false"].contains key.kind
    || (key.kind == "string" && !key.hasChildKind "interpolation")

/--
The key and the value of an entry, if it is a pair with a plain key.
-/
def plainPair? (entry : Node) : Option (Node × Node) :=
  if entry.kind = "pair" then
    match entry.field? "key", entry.field? "value" with
    | some key, some value => if isPlainKey key then some (key, value) else none
    | _, _ => none
  else none

/--
The text that an entry is kept under: that of its plain key, for a string without the quotes, or
else that of the whole entry.
-/
def entryName (entry : Node) : String :=
  match plainPair? entry with
  | some (key, _) => if key.kind = "string" then Text.unquote key.text else key.text
  | none => entry.text

/--
What an entry is kept as. Splats and entries with computed keys are unknown.
-/
def entryArgument (scope : Scope) (entry : Node) : Argument :=
  match plainPair? entry with
  | some (_, value) => (argument grammar scope value).value
  | none => entry.toArgument (.unknown none)

theorem dictionaryKey?_eq_ite (key : Node) :
    dictionaryKey? key =
      if isPlainKey key then
        some (if key.kind = "string" then Text.unquote key.text else key.text)
      else none := by
  unfold dictionaryKey? isPlainKey isInterpolated
  split
  · next hkind =>
    rw [hkind]
    cases key.hasChildKind "interpolation" with
    | true => rfl
    | false => rfl
  iterate 5
    · next hkind =>
      rw [hkind]
      rfl
  · next h1 h2 h3 h4 h5 h6 =>
    rw [if_neg]
    grind

theorem value_property_dictionaryEntry (scope : Scope) (entry : Node) :
    (property (argument grammar scope) (dictionaryEntry entry)).value =
      (entryName entry, entryArgument scope entry) := by
  unfold dictionaryEntry entryName entryArgument plainPair?
  split
  · next hkind =>
    rw [if_pos hkind]
    cases entry.field? "key" with
    | none => rfl
    | some key =>
      cases entry.field? "value" with
      | none =>
        rw [Option.bind_some]
        cases dictionaryKey? key with
        | none => rfl
        | some text => rfl
      | some value =>
        simp only [Option.bind_some, dictionaryKey?_eq_ite]
        by_cases hplain : isPlainKey key
        · rw [if_pos hplain, if_pos hplain]
          exact value_bind_pure (additive_argument grammar scope value) _
        · rw [if_neg hplain, if_neg hplain]
          rfl
  · next hkind =>
    rw [if_neg hkind]
    rfl

/--
A dictionary within the limit is an object that has, for each text, the last entry that is kept
under it. So it has one property for each entry if and only if the entries are kept under different
texts.
-/
theorem dictionary_keeps_entries (scope : Scope) (n : Node) (f : Fallbacks)
    (hkind : n.kind = "dictionary")
    (hlimit : ((argument grammar scope n).run f).2.depthLimitedArgs = f.depthLimitedArgs) :
    ∃ properties, ((argument grammar scope n).run f).1 = n.toArgument (.object properties) ∧
      (((items n).map entryName).Nodup →
        properties.Perm ((items n).map fun e => (entryName e, entryArgument scope e))) ∧
      (properties.length = (items n).length ↔ ((items n).map entryName).Nodup) ∧
      ∀ name, properties.lookup name =
        ((items n).reverse.find? (entryName · == name)).map (entryArgument scope) := by
  have hadd := additive_argument grammar scope
  rw [hadd n f] at hlimit ⊢
  have hcost : (argument grammar scope n).cost.depthLimitedArgs = 0 := Nat.add_eq_left.1 hlimit
  have hvalue : (argument grammar scope n).value = n.toArgument
      (.object (addEntries [] ((items n).map fun e => (entryName e, entryArgument scope e)))) := by
    have hshape : grammar.classifyArg n = .object ((items n).map dictionaryEntry) := by
      simp only [grammar, classifyArg, hkind]
    rw [argument_of_limit_not_hit hcost, hshape, value_bind_pure (additive_kindOfShape hadd _),
      value_kindOfShape_object hadd, List.map_map]
    simp only [Function.comp_def, value_property_dictionaryEntry]
  have hnames : ((items n).map fun e => (entryName e, entryArgument scope e)).map (·.1) =
      (items n).map entryName := by
    rw [List.map_map]
    rfl
  refine ⟨_, hvalue, ?_, ?_, ?_⟩
  · intro hnodup
    rw [← hnames] at hnodup
    exact perm_addEntries hnodup
  · rw [← hnames, ← length_addEntries_iff, List.length_map]
  · intro name
    rw [lookup_addEntries, List.lookup_nil, Option.or_none, ← List.map_reverse,
      lookup_map_eq_find?]

/--
The tree of a dictionary with a splat, a computed key, a comment and a dictionary inside.
-/
def mixedDictionary : Node :=
  .root (.ofString "\x7b'a': 1, **b, f(): 2, # c\nx: \x7b'y': 3\x7d\x7d") <|
    .node ⟨"dictionary", true, false, none, 0, 38⟩ [
      .node ⟨"pair", true, false, none, 1, 7⟩ [
        .node ⟨"string", true, false, some "key", 1, 4⟩ [],
        .node ⟨"integer", true, false, some "value", 6, 7⟩ []],
      .node ⟨"dictionary_splat", true, false, none, 9, 12⟩ [
        .node ⟨"identifier", true, false, none, 11, 12⟩ []],
      .node ⟨"pair", true, false, none, 14, 20⟩ [
        .node ⟨"call", true, false, some "key", 14, 17⟩ [],
        .node ⟨"integer", true, false, some "value", 19, 20⟩ []],
      .node ⟨"comment", true, false, none, 22, 25⟩ [],
      .node ⟨"pair", true, false, none, 26, 37⟩ [
        .node ⟨"identifier", true, false, some "key", 26, 27⟩ [],
        .node ⟨"dictionary", true, false, some "value", 29, 37⟩ [
          .node ⟨"pair", true, false, none, 30, 36⟩ [
            .node ⟨"string", true, false, some "key", 30, 33⟩ [],
            .node ⟨"integer", true, false, some "value", 35, 36⟩ []]]]]

theorem mixedDictionary_keeps_entries :
    let scope : Scope := ⟨"a.py", { maxArgDepth := 2 }⟩
    let names := ["a", "**b", "f(): 2", "x"]
    (items mixedDictionary).map entryName = names ∧
    ∃ properties, ((argument grammar scope mixedDictionary).run 0).1 =
        mixedDictionary.toArgument (.object properties) ∧
      properties.length = 4 ∧
      properties.Perm
        ((items mixedDictionary).map fun e => (entryName e, entryArgument scope e)) := by
  intro scope names
  have hnames : (items mixedDictionary).map entryName = names := by decide +kernel
  have hkind : mixedDictionary.kind = "dictionary" := rfl
  have hlimit : ((argument grammar scope mixedDictionary).run 0).2.depthLimitedArgs = 0 := by
    decide +kernel
  obtain ⟨properties, hvalue, hperm, hlength, -⟩ :=
    dictionary_keeps_entries scope mixedDictionary 0 hkind hlimit
  have hnodup : ((items mixedDictionary).map entryName).Nodup := by
    rw [hnames]
    decide
  exact ⟨hnames, properties, hvalue, hlength.2 hnodup, hperm hnodup⟩

/--
The tree of a dictionary with the number `1` and the string `"1"` as keys.
-/
def numberAndString : Node :=
  .root (.ofString "\x7b1: a, \"1\": b\x7d") <|
    .node ⟨"dictionary", true, false, none, 0, 14⟩ [
      .node ⟨"pair", true, false, none, 1, 5⟩ [
        .node ⟨"integer", true, false, some "key", 1, 2⟩ [],
        .node ⟨"identifier", true, false, some "value", 4, 5⟩ []],
      .node ⟨"pair", true, false, none, 7, 13⟩ [
        .node ⟨"string", true, false, some "key", 7, 10⟩ [],
        .node ⟨"identifier", true, false, some "value", 12, 13⟩ []]]

/--
The kind of the key does not tell two entries apart that are kept under the same text.
-/
theorem number_and_string_key_lose_entry :
    let arg := ((argument grammar ⟨"a.py", {}⟩ numberAndString).run 0).1
    (items numberAndString).Pairwise (fun d e =>
      (d.field? "key").map Node.kind ≠ (e.field? "key").map Node.kind ∨
        entryName d ≠ entryName e) ∧
    (items numberAndString).length = 2 ∧ arg.kind.name = "object" ∧
    arg.kind.parts.map (·.text) = ["b"] := by
  decide +kernel

end Python

end Polyglot
