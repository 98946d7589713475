import Polyglot.Proofs.Affixes
import Polyglot.Proofs.Paths

/-!
This module contains the names of types. References, lifetimes and keywords may stand in front of a
type, and they are peeled off in rounds until a round changes nothing. What is left is the type
itself, in whatever order they stand, and its name is what precedes the generic arguments.
-/

namespace Polyglot.Rust

open Text

/--
The words that may stand in front of a type.
-/
def typeKeywords : List String := ["mut", "dyn", "impl"]

/--
The characters `cs` are `rest` behind any number of references, lifetimes and keywords in any order,
with any blanks around them. Lifetimes and keywords end at a blank, and a lifetime may stand without
a reference in front of it.
-/
inductive Prefixed (rest : List Char) : List Char → Prop
  | rest : Prefixed rest rest
  | blank {c : Char} {cs : List Char} (hc : isBlank c) (hcs : Prefixed rest cs) :
    Prefixed rest (c :: cs)
  | reference {cs : List Char} (hcs : Prefixed rest cs) : Prefixed rest ('&' :: cs)
  | lifetime (name : List Char) {c : Char} {cs : List Char} (hname : ∀ d ∈ name, ¬isBlank d)
    (hc : isBlank c) (hcs : Prefixed rest cs) : Prefixed rest ('\x27' :: (name ++ c :: cs))
  | keyword (word : String) {c : Char} {cs : List Char} (hword : word ∈ typeKeywords)
    (hc : isBlank c) (hcs : Prefixed rest cs) : Prefixed rest (word.toList ++ c :: cs)

/--
There is nothing to peel off the characters: they begin neither with a blank nor with a reference, a
lifetime or a keyword.
-/
structure Bare (cs : List Char) : Prop where
  blank : ∀ c ∈ cs.head?, ¬isBlank c
  reference : cs.head? ≠ some '&'
  lifetime : cs.head? ≠ some '\x27'
  keyword : ∀ word ∈ typeKeywords, ∀ c rest, cs = word.toList ++ c :: rest → ¬isBlank c

/--
Peeling round by round leads from `cs` to `rest`, and the next round changes nothing.
-/
inductive PeelsTo : (cs rest : List Char) → Prop
  | stop {cs : List Char} (hstop : peelOnce cs = cs) : PeelsTo cs cs
  | round {cs rest : List Char} (hround : peelOnce cs ≠ cs) (hrest : PeelsTo (peelOnce cs) rest) :
    PeelsTo cs rest

theorem isSegment_of_mem_typeKeywords : ∀ word ∈ typeKeywords, isSegment word := by decide

theorem head_of_keyword {word : String} (hword : word ∈ typeKeywords) (tail : List Char) :
    ∀ c ∈ (word.toList ++ tail).head?, isNameChar c :=
  isNameChar_of_head (isSegment_of_mem_typeKeywords word hword) tail

theorem plain_of_head {cs : List Char} (h : ∀ c ∈ cs.head?, isNameChar c) :
    (∀ c ∈ cs.head?, ¬isBlank c) ∧ cs.head? ≠ some '&' ∧ cs.head? ≠ some '\x27' := by
  refine ⟨fun c hc => not_isBlank_of_isNameChar (h c hc), ?_, ?_⟩
  · intro hhead
    cases h '&' hhead
  · intro hhead
    cases h '\x27' hhead

/-! One round -/

section Suffix

theorem dropLifetime_suffix (cs : List Char) : dropLifetime cs <:+ cs := by
  unfold dropLifetime
  split
  · exact (List.dropWhile_suffix _).trans (List.dropWhile_suffix _)
  · exact List.suffix_refl cs

theorem dropKeyword_suffix (word : String) (cs : List Char) : dropKeyword cs word <:+ cs := by
  unfold dropKeyword
  split
  case h_2 => exact List.suffix_refl cs
  case h_1 c rest hdrop =>
    split
    · have hrest : c :: rest <:+ cs := ⟨_, (eq_append_of_dropHead? hdrop).symm⟩
      exact (List.dropWhile_suffix _).trans ((List.suffix_cons c rest).trans hrest)
    · exact List.suffix_refl cs

theorem foldl_dropKeyword_suffix (words : List String) (cs : List Char) :
    words.foldl dropKeyword cs <:+ cs := by
  induction words generalizing cs with
  | nil => exact List.suffix_refl cs
  | cons word words ih => exact (ih _).trans (dropKeyword_suffix word cs)

theorem peelOnce_suffix (cs : List Char) : peelOnce cs <:+ cs :=
  (foldl_dropKeyword_suffix _ _).trans <| (dropLifetime_suffix _).trans <|
    (List.dropWhile_suffix _).trans (List.dropWhile_suffix _)

/--
Of two operations that only drop characters in front, both change nothing if together they do.
-/
theorem comp_eq_self_iff {f g : List Char → List Char} (hf : ∀ cs, f cs <:+ cs)
    (hg : ∀ cs, g cs <:+ cs) (cs : List Char) : g (f cs) = cs ↔ f cs = cs ∧ g cs = cs := by
  constructor
  · intro h
    have hlength := (hg (f cs)).length_le
    rw [h] at hlength
    have hfirst : f cs = cs := (hf cs).eq_of_length_le hlength
    rw [hfirst] at h
    exact ⟨hfirst, h⟩
  · rintro ⟨hfirst, hsecond⟩
    rw [hfirst, hsecond]

end Suffix

section Unchanged

variable {cs : List Char}

theorem dropLifetime_eq_self_iff : dropLifetime cs = cs ↔ cs.head? ≠ some '\x27' := by
  unfold dropLifetime
  constructor
  · intro h hhead
    obtain ⟨rest, rfl⟩ := List.head?_eq_some_iff.1 hhead
    have hlength := congrArg List.length h
    have hle : (dropBlanks (rest.dropWhile (!isBlank ·))).length ≤ rest.length :=
      ((List.dropWhile_suffix _).trans (List.dropWhile_suffix _)).length_le
    have hdrop : dropBlanks (('\x27' :: rest).dropWhile (!isBlank ·)) =
        dropBlanks (rest.dropWhile (!isBlank ·)) := rfl
    rw [if_pos (by rfl), hdrop, List.length_cons] at hlength
    omega
  · intro h
    rw [if_neg]
    rwa [beq_iff_eq]

theorem dropKeyword_eq_self_iff {word : String} :
    dropKeyword cs word = cs ↔ ∀ c rest, cs = word.toList ++ c :: rest → ¬isBlank c := by
  constructor
  · rintro h c rest rfl hc
    rw [dropKeyword, dropHead?_append] at h
    simp only [hc, if_true] at h
    have hlength := congrArg List.length h
    have hle : (dropBlanks rest).length ≤ rest.length := (List.dropWhile_suffix _).length_le
    rw [List.length_append, List.length_cons] at hlength
    omega
  · intro h
    unfold dropKeyword
    split
    case h_2 => rfl
    case h_1 c rest hdrop => exact if_neg (h c rest (eq_append_of_dropHead? hdrop))

theorem foldl_dropKeyword_eq_self_iff {words : List String} :
    words.foldl dropKeyword cs = cs ↔ ∀ word ∈ words, dropKeyword cs word = cs := by
  induction words with
  | nil => exact ⟨fun _ => List.forall_mem_nil _, fun _ => rfl⟩
  | cons word words ih =>
    rw [List.foldl_cons, List.forall_mem_cons, ← ih]
    exact comp_eq_self_iff (dropKeyword_suffix word) (foldl_dropKeyword_suffix words) cs

theorem dropReferences_eq_self_iff : cs.dropWhile (· == '&') = cs ↔ cs.head? ≠ some '&' := by
  rw [dropWhile_eq_self_iff_head]
  constructor
  · intro h hhead
    exact h '&' hhead rfl
  · intro h c hc heq
    rw [beq_iff_eq.1 heq] at hc
    exact h hc

/--
A round leaves exactly the bare texts as they are.
-/
theorem peelOnce_eq_self_iff : peelOnce cs = cs ↔ Bare cs := by
  have hreferences (cs : List Char) : cs.dropWhile (· == '&') <:+ cs := List.dropWhile_suffix _
  have hblanks (cs : List Char) : dropBlanks cs <:+ cs := List.dropWhile_suffix _
  have hfront (cs : List Char) : dropBlanks (cs.dropWhile (· == '&')) <:+ cs :=
    (hblanks _).trans (hreferences _)
  have hlifetimes (cs : List Char) : dropLifetime (dropBlanks (cs.dropWhile (· == '&'))) <:+ cs :=
    (dropLifetime_suffix _).trans (hfront _)
  have hstages : peelOnce cs = cs ↔
      ((cs.dropWhile (· == '&') = cs ∧ dropBlanks cs = cs) ∧ dropLifetime cs = cs) ∧
        typeKeywords.foldl dropKeyword cs = cs := by
    rw [← comp_eq_self_iff hreferences hblanks, ← comp_eq_self_iff hfront dropLifetime_suffix]
    exact comp_eq_self_iff hlifetimes (foldl_dropKeyword_suffix typeKeywords) cs
  rw [hstages, dropReferences_eq_self_iff, dropBlanks, dropWhile_eq_self_iff_head,
    dropLifetime_eq_self_iff, foldl_dropKeyword_eq_self_iff]
  simp only [dropKeyword_eq_self_iff]
  constructor
  · rintro ⟨⟨⟨hreference, hblank⟩, hlifetime⟩, hkeyword⟩
    exact ⟨hblank, hreference, hlifetime, hkeyword⟩
  · rintro ⟨hblank, hreference, hlifetime, hkeyword⟩
    exact ⟨⟨⟨hreference, hblank⟩, hlifetime⟩, hkeyword⟩

end Unchanged

/-! All rounds -/

theorem bare_peel (cs : List Char) : Bare (peel cs) := by
  fun_induction peel cs with
  | case1 cs hlt ih => exact ih
  | case2 cs hlt =>
    rw [← peelOnce_eq_self_iff]
    exact (peelOnce_suffix cs).eq_of_length_le (Nat.not_lt.1 hlt)

theorem peelsTo_peel (cs : List Char) : PeelsTo cs (peel cs) := by
  fun_induction peel cs with
  | case1 cs hlt ih =>
    refine .round ?_ ih
    intro heq
    rw [heq] at hlt
    exact Nat.lt_irrefl _ hlt
  | case2 cs hlt => exact .stop ((peelOnce_suffix cs).eq_of_length_le (Nat.not_lt.1 hlt))

namespace Prefixed

variable {rest cs : List Char}

theorem trans {middle : List Char} (hcs : Prefixed middle cs) (hmiddle : Prefixed rest middle) :
    Prefixed rest cs := by
  induction hcs with
  | rest => exact hmiddle
  | blank hc _ ih => exact .blank hc ih
  | reference _ ih => exact .reference ih
  | lifetime name hname hc _ ih => exact .lifetime name hname hc ih
  | keyword word hword hc _ ih => exact .keyword word hword hc ih

theorem exists_append (h : Prefixed rest cs) :
    ∃ front, cs = front ++ rest ∧ ∀ more, Prefixed more (front ++ more) := by
  induction h with
  | rest => exact ⟨[], rfl, fun _ => .rest⟩
  | @blank c cs hc _ ih =>
    obtain ⟨front, rfl, hfront⟩ := ih
    exact ⟨c :: front, rfl, fun more => .blank hc (hfront more)⟩
  | reference _ ih =>
    obtain ⟨front, rfl, hfront⟩ := ih
    exact ⟨'&' :: front, rfl, fun more => .reference (hfront more)⟩
  | @lifetime name c cs hname hc _ ih =>
    obtain ⟨front, rfl, hfront⟩ := ih
    refine ⟨'\x27' :: (name ++ c :: front), by simp, fun more => ?_⟩
    simpa using Prefixed.lifetime name hname hc (hfront more)
  | @keyword word c cs hword hc _ ih =>
    obtain ⟨front, rfl, hfront⟩ := ih
    refine ⟨word.toList ++ c :: front, by simp, fun more => ?_⟩
    simpa using Prefixed.keyword word hword hc (hfront more)

protected theorem dropBlanksEnd (h : Prefixed rest cs) (hrest : ∃ c ∈ rest, ¬isBlank c) :
    Prefixed (dropBlanksEnd rest) (dropBlanksEnd cs) := by
  obtain ⟨front, rfl, hfront⟩ := h.exists_append
  rw [dropBlanksEnd_append front hrest]
  exact hfront _

theorem of_dropBlanks_append (path args : List Char) :
    Prefixed (dropBlanks path ++ args) (path ++ args) := by
  induction path with
  | nil => exact .rest
  | cons c path ih =>
    by_cases hc : isBlank c
    · rw [dropBlanks, List.dropWhile_cons_of_pos hc]
      exact .blank hc ih
    · rw [dropBlanks, List.dropWhile_cons_of_neg hc]
      exact .rest

/--
The only bare text is the one behind the prefixes.
-/
theorem eq_of_bare (h : Prefixed rest cs) (hcs : Bare cs) : cs = rest := by
  cases h with
  | rest => rfl
  | blank hc => exact absurd hc (hcs.blank _ rfl)
  | reference => exact absurd rfl hcs.reference
  | lifetime => exact absurd rfl hcs.lifetime
  | keyword word hword hc => exact absurd hc (hcs.keyword word hword _ _ rfl)

/-! Every stage of a round keeps the text behind the prefixes, and with it all rounds do. -/

section Round

variable (hrest : Bare rest)

include hrest

protected theorem dropBlanks (h : Prefixed rest cs) : Prefixed rest (dropBlanks cs) := by
  induction h with
  | rest =>
    rw [dropBlanks, dropWhile_of_head hrest.blank]
    exact .rest
  | blank hc _ ih => rwa [dropBlanks, List.dropWhile_cons_of_pos hc]
  | reference hcs => exact .reference hcs
  | lifetime name hname hc hcs => exact .lifetime name hname hc hcs
  | keyword word hword hc hcs =>
    rw [dropBlanks, dropWhile_of_head (plain_of_head (head_of_keyword hword _)).1]
    exact .keyword word hword hc hcs

theorem dropReferences (h : Prefixed rest cs) : Prefixed rest (cs.dropWhile (· == '&')) := by
  induction h with
  | rest =>
    rw [dropReferences_eq_self_iff.2 hrest.reference]
    exact .rest
  | blank hc hcs =>
    rw [dropReferences_eq_self_iff.2]
    · exact .blank hc hcs
    · rintro ⟨⟩
      cases hc
  | reference _ ih => exact ih
  | lifetime name hname hc hcs => exact .lifetime name hname hc hcs
  | keyword word hword hc hcs =>
    rw [dropReferences_eq_self_iff.2 (plain_of_head (head_of_keyword hword _)).2.1]
    exact .keyword word hword hc hcs

protected theorem dropLifetime (h : Prefixed rest cs) : Prefixed rest (dropLifetime cs) := by
  cases h with
  | rest =>
    rw [dropLifetime_eq_self_iff.2 hrest.lifetime]
    exact .rest
  | blank hc hcs =>
    rw [dropLifetime_eq_self_iff.2]
    · exact .blank hc hcs
    · rintro ⟨⟩
      cases hc
  | reference hcs => exact .reference hcs
  | @lifetime name c cs hname hc hcs =>
    have hmark : ∀ d ∈ '\x27' :: name, !isBlank d :=
      List.forall_mem_cons.2 ⟨rfl, fun d hd => by simpa using hname d hd⟩
    have hdrop : ('\x27' :: name ++ c :: cs).dropWhile (!isBlank ·) = c :: cs := by
      rw [List.dropWhile_append_of_pos hmark]
      exact List.dropWhile_cons_of_neg (by simp [hc])
    rw [dropLifetime, if_pos (by rfl), ← List.cons_append, hdrop]
    exact (Prefixed.blank hc hcs).dropBlanks hrest
  | keyword word hword hc hcs =>
    rw [dropLifetime_eq_self_iff.2 (plain_of_head (head_of_keyword hword _)).2.2]
    exact .keyword word hword hc hcs

/--
Behind a keyword there is again the rest with its prefixes.
-/
theorem of_keyword {word : String} {c : Char} {tail : List Char}
    (h : Prefixed rest (word.toList ++ c :: tail)) (hword : word ∈ typeKeywords) (hc : isBlank c) :
    Prefixed rest tail := by
  have hplain := plain_of_head (head_of_keyword hword (c :: tail))
  generalize hcs : word.toList ++ c :: tail = cs at h hplain
  cases h with
  | rest => exact absurd hc (hrest.keyword word hword c tail hcs.symm)
  | blank hd => exact absurd hd (hplain.1 _ rfl)
  | reference => exact absurd rfl hplain.2.1
  | lifetime => exact absurd rfl hplain.2.2
  | @keyword other d cs hother hd h =>
    have hsame := append_inj_of_isSegment (isSegment_of_mem_typeKeywords word hword)
      (isSegment_of_mem_typeKeywords other hother) (not_isNameChar_of_isBlank hc tail)
      (not_isNameChar_of_isBlank hd cs) hcs
    rw [(List.cons.inj hsame.2).2]
    exact h

protected theorem dropKeyword {word : String} (hword : word ∈ typeKeywords)
    (h : Prefixed rest cs) : Prefixed rest (dropKeyword cs word) := by
  unfold dropKeyword
  split
  case h_2 => exact h
  case h_1 c tail hdrop =>
    split
    case isFalse => exact h
    case isTrue hc =>
      rw [eq_append_of_dropHead? hdrop] at h
      exact (h.of_keyword hrest hword hc).dropBlanks hrest

protected theorem peelOnce (h : Prefixed rest cs) : Prefixed rest (peelOnce cs) := by
  have hkeywords : ∀ words ⊆ typeKeywords, ∀ cs, Prefixed rest cs →
      Prefixed rest (words.foldl dropKeyword cs) := by
    intro words hwords
    induction words with
    | nil => exact fun _ h => h
    | cons word words ih =>
      rw [List.cons_subset] at hwords
      intro cs h
      exact ih hwords.2 _ (h.dropKeyword hrest hwords.1)
  apply hkeywords typeKeywords (List.Subset.refl _)
  exact ((h.dropReferences hrest).dropBlanks hrest).dropLifetime hrest

protected theorem peel (h : Prefixed rest cs) : Prefixed rest (peel cs) := by
  fun_induction peel cs with
  | case1 cs _ ih => exact ih (h.peelOnce hrest)
  | case2 cs _ => exact h

/--
All prefixes are peeled off, and nothing else.
-/
theorem peel_eq (h : Prefixed rest cs) : peel cs = rest :=
  (h.peel hrest).eq_of_bare (bare_peel cs)

end Round

end Prefixed

/-! Names -/

namespace Bare

variable {cs : List Char}

theorem peel_eq (h : Bare cs) : peel cs = cs := Prefixed.rest.peel_eq h

/--
The characters at the end do not matter.
-/
theorem initial {front : List Char} (h : Bare cs) (hfront : front <+: cs) : Bare front := by
  obtain ⟨more, rfl⟩ := hfront
  have hhead {c : Char} (hc : front.head? = some c) : (front ++ more).head? = some c := by
    rw [List.head?_append, hc, Option.some_or]
  refine ⟨fun c hc => h.blank c (hhead hc), fun hc => h.reference (hhead hc),
    fun hc => h.lifetime (hhead hc), ?_⟩
  rintro word hword c rest rfl
  exact h.keyword word hword c (rest ++ more) (by simp)

/--
Generic arguments do not turn a path into a keyword.
-/
theorem append {args : List Char} (h : Bare cs) (hne : cs ≠ [])
    (hargs : args = [] ∨ args.head? = some '<') : Bare (cs ++ args) := by
  have hhead : (cs ++ args).head? = cs.head? := by
    rw [List.head?_append, Option.or_of_isSome]
    rwa [List.isSome_head?]
  refine ⟨hhead ▸ h.blank, hhead ▸ h.reference, hhead ▸ h.lifetime, ?_⟩
  intro word hword c rest heq
  have hangle {more : List Char} (hmore : args = c :: more) : ¬isBlank c := by
    rcases hargs with rfl | hargs
    · cases hmore
    · rw [hmore] at hargs
      cases hargs
      exact Bool.false_ne_true
  rcases List.append_eq_append_iff.1 heq with ⟨tail, hlist, htail⟩ | ⟨tail, hlist, htail⟩
  · cases tail with
    | nil => exact hangle htail
    | cons d tail =>
      rcases hargs with rfl | hargs
      · cases htail
      · -- The keyword would contain the bracket.
        rw [htail] at hargs
        cases hargs
        have hmem : '<' ∈ word.toList := hlist ▸ List.mem_append_right _ List.mem_cons_self
        cases isNameChar_of_mem (isSegment_of_mem_typeKeywords word hword) hmem
  · cases tail with
    | nil => exact hangle htail.symm
    | cons d tail =>
      cases htail
      exact h.keyword word hword c tail hlist

protected theorem withoutBlanks (h : Bare cs) : Bare (withoutBlanks cs) := by
  have hhead : (withoutBlanks cs).head? = cs.head? := by
    cases cs with
    | nil => rfl
    | cons c cs =>
      have hc := h.blank c rfl
      rw [withoutBlanks, List.filter_cons_of_pos (by simpa using hc), List.head?_cons,
        List.head?_cons]
  refine ⟨hhead ▸ h.blank, hhead ▸ h.reference, hhead ▸ h.lifetime, ?_⟩
  intro word _ c rest heq
  apply not_isBlank_of_mem
  rw [heq]
  exact List.mem_append_right _ List.mem_cons_self

end Bare

/--
The name of a type behind prefixes is its path without blanks.
-/
theorem baseTypeName_of_prefixed {text : String} {path args : List Char}
    (h : Prefixed (path ++ args) text.toList) (hne : dropBlanks path ≠ [])
    (hpath : Bare (dropBlanks path)) (hangle : '<' ∉ path)
    (hargs : args = [] ∨ args.head? = some '<') :
    baseTypeName text = String.ofList (withoutBlanks path) := by
  have hprefixed := h.trans (.of_dropBlanks_append path args)
  have hbare := hpath.append hne hargs
  have hblank : ∃ c ∈ dropBlanks path ++ args, ¬isBlank c := by
    obtain ⟨c, tail, hlist⟩ := List.exists_cons_of_ne_nil hne
    rw [hlist] at hpath ⊢
    exact ⟨c, List.mem_cons_self, hpath.blank c rfl⟩
  have hpeel : peel (trimChars text.toList) = dropBlanksEnd (dropBlanks path ++ args) :=
    ((hprefixed.dropBlanks hbare).dropBlanksEnd hblank).peel_eq
      (hbare.initial (dropBlanksEnd_initial _))
  have hargs' : (withoutBlanks args).takeWhile (· != '<') = [] := by
    rcases hargs with rfl | hargs
    · rfl
    · obtain ⟨args, rfl⟩ := List.head?_eq_some_iff.1 hargs
      rfl
  have hname : ∀ c ∈ withoutBlanks path, c != '<' := by
    intro c hc
    rw [bne_iff_ne]
    rintro rfl
    exact hangle (List.mem_filter.1 hc).1
  unfold baseTypeName
  rw [hpeel, withoutBlanks_dropBlanksEnd, withoutBlanks_append, withoutBlanks_dropBlanks,
    List.takeWhile_append_of_pos hname, hargs', List.append_nil]

theorem baseTypeName_initial (text : String) :
    (baseTypeName text).toList <+: withoutBlanks (peel (trimChars text.toList)) := by
  rw [baseTypeName, String.toList_ofList]
  exact List.takeWhile_prefix _

/--
A text without blanks and generic arguments is its own name if there is nothing to peel off it.
-/
theorem baseTypeName_eq_self {name : String} (hbare : Bare name.toList)
    (hblank : ∀ c ∈ name.toList, ¬isBlank c) (hangle : '<' ∉ name.toList) :
    baseTypeName name = name := by
  have htrim : trimChars name.toList = name.toList :=
    trimChars_eq_self hbare.blank fun c hc => hblank c (List.mem_of_getLast? hc)
  have hname : name.toList.takeWhile (· != '<') = name.toList := by
    rw [List.takeWhile_eq_self_iff]
    intro c hc
    rw [bne_iff_ne]
    rintro rfl
    exact hangle hc
  unfold baseTypeName
  rw [htrim, hbare.peel_eq, withoutBlanks_of_noBlanks hblank, hname, String.ofList_toList]

/--
Whatever stands in front of a path, and in whatever order, the name is that path without blanks,
with or without generic arguments behind it. The rounds of peeling come to an end for every text,
and the name of a name is that name.
-/
theorem baseTypeName_peels (text : String) :
    (∀ path args : String, Prefixed (path.toList ++ args.toList) text.toList →
      dropBlanks path.toList ≠ [] → Bare (dropBlanks path.toList) → '<' ∉ path.toList →
      args = "" ∨ args.toList.head? = some '<' → baseTypeName text = strip path) ∧
    PeelsTo (trimChars text.toList) (peel (trimChars text.toList)) ∧
    baseTypeName (baseTypeName text) = baseTypeName text := by
  refine ⟨?_, peelsTo_peel _, ?_⟩
  · intro path args h hne hbare hangle hargs
    rw [← String.toList_eq_nil_iff] at hargs
    exact baseTypeName_of_prefixed h hne hbare hangle hargs
  · -- A name has the form of what is left after peeling, so there is nothing to do in it.
    have hinitial := baseTypeName_initial text
    apply baseTypeName_eq_self ((bare_peel _).withoutBlanks.initial hinitial)
    · intro c hc
      exact not_isBlank_of_mem (hinitial.subset hc)
    · rw [baseTypeName, String.toList_ofList]
      intro hmem
      cases List.mem_takeWhile_imp hmem

theorem borrowedObject_peeled :
    Prefixed ("a :: Foo ".toList ++ "<T>".toList) "& 'a mut\tdyn &a :: Foo <T>".toList ∧
    Bare (dropBlanks "a :: Foo ".toList) ∧
    baseTypeName "& 'a mut\tdyn &a :: Foo <T>" = "a::Foo" := by
  have hprefixed :
      Prefixed ("a :: Foo ".toList ++ "<T>".toList) "& 'a mut\tdyn &a :: Foo <T>".toList :=
    .reference <| .blank rfl <|
      .lifetime ['a'] (c := ' ') (List.forall_mem_singleton.2 (by decide)) rfl <|
      .keyword "mut" (c := '\t') (by decide) rfl <|
      .keyword "dyn" (c := ' ') (by decide) rfl <| .reference .rest
  have hbare : Bare (dropBlanks "a :: Foo ".toList) := peelOnce_eq_self_iff.1 rfl
  refine ⟨hprefixed, hbare, ?_⟩
  rw [(baseTypeName_peels _).1 "a :: Foo " "<T>" hprefixed (by decide) hbare (by decide) (.inr rfl)]
  rfl

end Polyglot.Rust
