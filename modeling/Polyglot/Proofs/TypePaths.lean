import Polyglot.Proofs.TypeNames

/-!
This module contains types as they are named by an impl block: a path with generic arguments behind
it. The name that is taken from the text is that path, and it is resolved to the type that the path
leads to from the module around the block.
-/

namespace Polyglot.Rust

open Text

/--
The text is that of a type at the given path, with or without generic arguments.
-/
def TypeSpelled (text : String) (path : List String) : Prop :=
  ∃ cs args, text.toList = cs ++ args ∧ Spelled cs path ∧ (args = [] ∨ args.head? = some '<')

/--
The words that lead to a module in front of a path.
-/
def pathKeywords : List String := ["crate", "self", "super"]

/--
Whether `s` can be the name of a module or a type.
-/
def isName (s : String) : Bool := isSegment s && !(pathKeywords ++ typeKeywords).contains s

/--
From the module at `modules`, the segments lead to the type at `path`.
-/
inductive LeadsTo (modules : List String) : (segments path : List String) → Prop
  | relative {k : Nat} {rest : List String} (hk : k ≤ modules.length) (hne : rest ≠ [])
    (hrest : ∀ s ∈ rest, isName s) :
    LeadsTo modules (List.replicate k "super" ++ rest) (modules.take (modules.length - k) ++ rest)
  | self {k : Nat} {rest : List String} (hk : k ≤ modules.length) (hne : rest ≠ [])
    (hrest : ∀ s ∈ rest, isName s) :
    LeadsTo modules ("self" :: (List.replicate k "super" ++ rest))
      (modules.take (modules.length - k) ++ rest)
  | crate {rest : List String} (hne : rest ≠ []) (hrest : ∀ s ∈ rest, isName s) :
    LeadsTo modules ("crate" :: rest) rest

/-! Text -/

theorem angle_not_mem_pathText {path : List String} (h : ∀ s ∈ path, isSegment s) :
    '<' ∉ (pathText path).toList := by
  induction path with
  | nil => exact List.not_mem_nil
  | cons s path ih =>
    rw [List.forall_mem_cons] at h
    have hs : '<' ∉ s.toList := by
      intro hmem
      cases isNameChar_of_mem h.1 hmem
    cases path with
    | nil => rwa [pathText_singleton]
    | cons t path =>
      rw [toList_pathText_cons _ _ (List.cons_ne_nil _ _)]
      simpa [hs] using ih h.2

theorem Spelled.exists_head {cs : List Char} {s : String} {path : List String}
    (h : Spelled cs (s :: path)) :
    ∃ tail, dropBlanks cs = s.toList ++ tail ∧ ∀ c ∈ tail.head?, ¬isNameChar c := by
  have hblank {after : List Char} (hafter : after.all isBlank) (rest : List Char)
      (hrest : ∀ c ∈ rest.head?, ¬isNameChar c) : ∀ c ∈ (after ++ rest).head?, ¬isNameChar c := by
    cases after with
    | nil => exact hrest
    | cons c after =>
      exact not_isNameChar_of_isBlank (List.all_eq_true.1 hafter c List.mem_cons_self) _
  have hdrop {before : List Char} (hs : Rust.isSegment s) (hbefore : before.all isBlank)
      (tail : List Char) : dropBlanks (before ++ (s.toList ++ tail)) = s.toList ++ tail := by
    rw [dropBlanks, List.dropWhile_append_of_pos (List.all_eq_true.1 hbefore)]
    exact dropWhile_of_head (plain_of_head (isNameChar_of_head hs tail)).1
  cases h with
  | @last _ before after hsegment hbefore hafter =>
    refine ⟨after ++ [], ?_, hblank hafter [] ?_⟩
    · rw [← hdrop hsegment hbefore, List.append_nil, List.append_assoc]
    · intro c hc
      cases hc
  | @cons _ before after rest _ hsegment hbefore hafter hrest =>
    refine ⟨after ++ ':' :: ':' :: rest, ?_, hblank hafter _ ?_⟩
    · rw [← hdrop hsegment hbefore, List.append_assoc, List.append_assoc]
    · rintro d ⟨⟩ hd
      cases hd

/--
A path is not taken for a keyword that its first segment begins with.
-/
theorem bare_of_isSegment {s : String} (hs : isSegment s) (hne : s ∉ typeKeywords)
    {tail : List Char} (htail : ∀ c ∈ tail.head?, ¬isNameChar c) : Bare (s.toList ++ tail) := by
  obtain ⟨hblank, hreference, hlifetime⟩ := plain_of_head (isNameChar_of_head hs tail)
  refine ⟨hblank, hreference, hlifetime, ?_⟩
  intro word hword c rest heq hc
  have hsame := append_inj_of_isSegment hs (isSegment_of_mem_typeKeywords word hword) htail
    (not_isNameChar_of_isBlank hc rest) heq
  exact hne (hsame.1 ▸ hword)

/--
The name that is taken from the text of a type is its path.
-/
theorem baseTypeName_of_spelled {text : String} {path : List String} (h : TypeSpelled text path)
    (hhead : ∀ s ∈ path.head?, s ∉ typeKeywords) : baseTypeName text = pathText path := by
  obtain ⟨cs, args, htext, hpath, hargs⟩ := h
  obtain ⟨s, path, rfl⟩ := List.exists_cons_of_ne_nil hpath.ne_nil
  have hs := hpath.isSegment s List.mem_cons_self
  obtain ⟨tail, hdrop, htail⟩ := hpath.exists_head
  have hprefixed : Prefixed (cs ++ args) text.toList := htext ▸ .rest
  have hangle : '<' ∉ cs := by
    intro hmem
    apply angle_not_mem_pathText hpath.isSegment
    rw [← hpath.withoutBlanks_eq]
    exact List.mem_filter.2 ⟨hmem, rfl⟩
  have hne : s.toList ≠ [] := by
    rw [ne_eq, String.toList_eq_nil_iff]
    exact ne_empty_of_isSegment hs
  rw [baseTypeName_of_prefixed hprefixed _ _ hangle hargs, hpath.withoutBlanks_eq,
    String.ofList_toList]
  · rw [hdrop]
    exact List.append_ne_nil_of_left_ne_nil hne tail
  · rw [hdrop]
    exact bare_of_isSegment hs (hhead s rfl) htail

/-! Resolution -/

theorem isSegment_of_isName {s : String} (h : isName s) : isSegment s := by
  unfold isName at h
  rw [Bool.and_eq_true] at h
  exact h.1

theorem not_mem_of_isName {s : String} (h : isName s) : s ∉ pathKeywords ++ typeKeywords := by
  unfold isName at h
  rw [Bool.and_eq_true, Bool.not_eq_true'] at h
  simpa using h.2

theorem climb_replicate (modules : List String) (k : Nat) {rest : List String}
    (hrest : ∀ s ∈ rest, isName s) :
    climb modules (List.replicate k "super" ++ rest) =
      modules.take (modules.length - k) ++ rest := by
  induction k generalizing modules with
  | zero =>
    rw [List.replicate_zero, List.nil_append, Nat.sub_zero, List.take_length, climb]
    rintro path rfl
    have := not_mem_of_isName (hrest "super" List.mem_cons_self)
    exact this (by decide)
  | succ k ih =>
    rw [List.replicate_succ, List.cons_append, climb, ih, List.length_dropLast,
      List.dropLast_eq_take, List.take_take]
    congr 2
    omega

theorem replicate_append_ne {word : String} (hword : word ∈ pathKeywords) (hne : word ≠ "super")
    {k : Nat} {rest path : List String} (hrest : ∀ s ∈ rest, isName s) :
    List.replicate k "super" ++ rest ≠ word :: path := by
  intro heq
  cases k with
  | zero =>
    rw [List.replicate_zero, List.nil_append] at heq
    have := not_mem_of_isName (hrest word (heq ▸ List.mem_cons_self))
    exact this (List.mem_append_left _ hword)
  | succ k =>
    rw [List.replicate_succ, List.cons_append] at heq
    exact hne (List.cons.inj heq).1.symm

namespace LeadsTo

variable {modules segments path : List String}

theorem ne_nil (h : LeadsTo modules segments path) : segments ≠ [] := by
  cases h with
  | relative _ hne _ => exact List.append_ne_nil_of_right_ne_nil _ hne
  | self => exact List.cons_ne_nil _ _
  | crate => exact List.cons_ne_nil _ _

theorem mem_cases (h : LeadsTo modules segments path) {s : String} (hs : s ∈ segments) :
    s ∈ pathKeywords ∨ isName s := by
  have hsupers {k : Nat} {rest : List String} (hrest : ∀ s ∈ rest, isName s)
      (hs : s ∈ List.replicate k "super" ++ rest) : s ∈ pathKeywords ∨ isName s := by
    rcases List.mem_append.1 hs with hs | hs
    · rw [(List.mem_replicate.1 hs).2]
      exact .inl (by decide)
    · exact .inr (hrest s hs)
  cases h with
  | relative _ _ hrest => exact hsupers hrest hs
  | self _ _ hrest =>
    rcases List.mem_cons.1 hs with rfl | hs
    · exact .inl (by decide)
    · exact hsupers hrest hs
  | crate _ hrest =>
    rcases List.mem_cons.1 hs with rfl | hs
    · exact .inl (by decide)
    · exact .inr (hrest s hs)

theorem isSegment (h : LeadsTo modules segments path) : ∀ s ∈ segments, isSegment s := by
  intro s hs
  have hkeywords : ∀ s ∈ pathKeywords, Rust.isSegment s := by decide
  rcases h.mem_cases hs with hs | hs
  · exact hkeywords s hs
  · exact isSegment_of_isName hs

theorem not_mem_typeKeywords (h : LeadsTo modules segments path) :
    ∀ s ∈ segments, s ∉ typeKeywords := by
  intro s hs
  have hkeywords : ∀ s ∈ pathKeywords, s ∉ typeKeywords := by decide
  rcases h.mem_cases hs with hs | hs
  · exact hkeywords s hs
  · intro hmem
    exact not_mem_of_isName hs (List.mem_append_right _ hmem)

end LeadsTo

/--
A path that leads to a type is resolved to the path of that type.
-/
theorem resolve_of_leadsTo {modules segs path : List String} (h : LeadsTo modules segs path) :
    resolve modules (pathText segs) = pathText path := by
  unfold resolve
  rw [segments_pathText h.ne_nil h.isSegment]
  cases h with
  | relative hk hne hrest =>
    rw [← climb_replicate modules _ hrest]
    split
    case h_1 heq => exact absurd heq (replicate_append_ne (by decide) (by decide) hrest)
    case h_2 heq => exact absurd heq (replicate_append_ne (by decide) (by decide) hrest)
    case h_3 => rfl
  | self hk hne hrest => exact congrArg pathText (climb_replicate modules _ hrest)
  | crate hne hrest => exact congrArg pathText (climb_replicate [] 0 hrest)

/--
A type in any spelling is resolved to the path that it leads to.
-/
theorem resolve_baseTypeName {modules segs path : List String} {text : String}
    (htext : TypeSpelled text segs) (h : LeadsTo modules segs path) :
    resolve modules (baseTypeName text) = pathText path := by
  rw [baseTypeName_of_spelled htext, resolve_of_leadsTo h]
  intro s hs
  exact h.not_mem_typeKeywords s (List.mem_of_head? hs)

end Polyglot.Rust
