import Polyglot.Grammar.RustPath
import Polyglot.Proofs.Blanks
import Polyglot.Text.TypeName

/-!
This module contains paths as they are written in a source text: segments with separators between
them, and blanks around both. The text of a path is read back into its segments, whatever the
blanks are.
-/

namespace Polyglot.Rust

open Text

/--
The text of a path, without blanks.
-/
def pathText (path : List String) : String := String.intercalate separator path

/--
Whether a character can stand in a segment of a path. Every character of an identifier can.
-/
def isNameChar (c : Char) : Bool := !isBlank c && !([':', '<', '&', '\x27'].contains c)

def isSegment (s : String) : Bool := !s.toList.isEmpty && s.toList.all isNameChar

/--
The characters are those of the given segments, with separators between them and blanks around the
segments.
-/
inductive Spelled : List Char → List String → Prop
  | last {s : String} {before after : List Char} (hsegment : isSegment s)
    (hbefore : before.all isBlank) (hafter : after.all isBlank) :
    Spelled (before ++ s.toList ++ after) [s]
  | cons {s : String} {before after rest : List Char} {path : List String} (hsegment : isSegment s)
    (hbefore : before.all isBlank) (hafter : after.all isBlank) (hrest : Spelled rest path) :
    Spelled (before ++ s.toList ++ after ++ ':' :: ':' :: rest) (s :: path)

/--
The characters are those of a path that may begin with a separator. Its first segment is empty then.
-/
inductive PathSpelled : List Char → List String → Prop
  | relative {cs : List Char} {path : List String} (hpath : Spelled cs path) : PathSpelled cs path
  | rooted {before cs : List Char} {path : List String} (hbefore : before.all isBlank)
    (hpath : Spelled cs path) : PathSpelled (before ++ ':' :: ':' :: cs) ("" :: path)

/--
Whether the last segment of a path, if there is one, is a name.
-/
def EndsInName (path : List String) : Prop := ∀ s ∈ path.getLast?, isSegment s

section Segments

variable {s : String}

theorem ne_empty_of_isSegment (h : isSegment s) : s ≠ "" := by
  rintro rfl
  cases h

theorem isNameChar_of_mem (h : isSegment s) {c : Char} (hc : c ∈ s.toList) : isNameChar c := by
  unfold isSegment at h
  rw [Bool.and_eq_true, List.all_eq_true] at h
  exact h.2 c hc

theorem colon_not_mem (h : isSegment s) : ':' ∉ s.toList := by
  intro hmem
  cases isNameChar_of_mem h hmem

theorem not_isBlank_of_isNameChar {c : Char} (h : isNameChar c) : ¬isBlank c := by
  unfold isNameChar at h
  rw [Bool.and_eq_true, Bool.not_eq_true'] at h
  exact Bool.eq_false_iff.1 h.1

theorem withoutBlanks_of_isSegment (h : isSegment s) : withoutBlanks s.toList = s.toList :=
  withoutBlanks_of_noBlanks fun _ hc => not_isBlank_of_isNameChar (isNameChar_of_mem h hc)

theorem exists_head_of_isSegment (h : isSegment s) : ∃ c cs, s.toList = c :: cs ∧ isNameChar c := by
  cases hlist : s.toList with
  | nil => exact absurd (String.toList_eq_nil_iff.1 hlist) (ne_empty_of_isSegment h)
  | cons c cs => exact ⟨c, cs, rfl, isNameChar_of_mem h (hlist ▸ List.mem_cons_self)⟩

theorem isNameChar_of_head (h : isSegment s) (tail : List Char) :
    ∀ c ∈ (s.toList ++ tail).head?, isNameChar c := by
  obtain ⟨c, cs, hlist, hc⟩ := exists_head_of_isSegment h
  rw [hlist]
  rintro d ⟨⟩
  exact hc

theorem takeWhile_isNameChar (h : isSegment s) {tail : List Char}
    (htail : ∀ c ∈ tail.head?, ¬isNameChar c) :
    (s.toList ++ tail).takeWhile isNameChar = s.toList := by
  rw [List.takeWhile_append_of_pos fun c => isNameChar_of_mem h]
  cases tail with
  | nil => exact List.append_nil _
  | cons c tail => rw [List.takeWhile_cons_of_neg (htail c rfl), List.append_nil]

/--
A segment ends at the first character that cannot stand in it.
-/
theorem append_inj_of_isSegment {t : String} (hs : isSegment s) (ht : isSegment t)
    {tail more : List Char} (htail : ∀ c ∈ tail.head?, ¬isNameChar c)
    (hmore : ∀ c ∈ more.head?, ¬isNameChar c) (h : s.toList ++ tail = t.toList ++ more) :
    s = t ∧ tail = more := by
  have hname := takeWhile_isNameChar hs htail
  rw [h, takeWhile_isNameChar ht hmore] at hname
  rw [hname] at h
  exact ⟨(String.toList_inj.1 hname).symm, List.append_cancel_left h⟩

theorem not_isNameChar_of_isBlank {c : Char} (hc : isBlank c) (cs : List Char) :
    ∀ d ∈ (c :: cs).head?, ¬isNameChar d := by
  rintro d ⟨⟩ hd
  exact not_isBlank_of_isNameChar hd hc

end Segments

theorem withoutBlanks_colons (cs : List Char) :
    withoutBlanks (':' :: ':' :: cs) = ':' :: ':' :: withoutBlanks cs := rfl

section PathText

variable (s : String) (path : List String)

@[simp]
theorem pathText_nil : pathText [] = "" := String.intercalate_nil

@[simp]
theorem pathText_singleton : pathText [s] = s := String.intercalate_singleton

theorem toList_pathText_cons (hpath : path ≠ []) :
    (pathText (s :: path)).toList = s.toList ++ ':' :: ':' :: (pathText path).toList := by
  unfold pathText
  rw [String.intercalate_cons_of_ne_nil hpath, String.toList_append, String.toList_append,
    List.append_assoc]
  rfl

variable {s path}

theorem Spelled.ne_nil {cs : List Char} (h : Spelled cs path) : path ≠ [] := by
  cases h with
  | last => apply List.cons_ne_nil
  | cons => apply List.cons_ne_nil

theorem Spelled.isSegment {cs : List Char} (h : Spelled cs path) :
    ∀ s ∈ path, isSegment s := by
  induction h with
  | last hsegment => exact List.forall_mem_singleton.2 hsegment
  | cons hsegment _ _ _ ih => exact List.forall_mem_cons.2 ⟨hsegment, ih⟩

theorem Spelled.withoutBlanks_eq {cs : List Char} (h : Spelled cs path) :
    withoutBlanks cs = (pathText path).toList := by
  induction h with
  | last hsegment hbefore hafter =>
    rw [withoutBlanks_append, withoutBlanks_append, withoutBlanks_of_all hbefore,
      withoutBlanks_of_all hafter, withoutBlanks_of_isSegment hsegment, pathText_singleton,
      List.nil_append, List.append_nil]
  | cons hsegment hbefore hafter hrest ih =>
    rw [withoutBlanks_append, withoutBlanks_append, withoutBlanks_append,
      withoutBlanks_of_all hbefore, withoutBlanks_of_all hafter,
      withoutBlanks_of_isSegment hsegment, withoutBlanks_colons, ih,
      toList_pathText_cons _ _ hrest.ne_nil, List.nil_append, List.append_nil]

theorem PathSpelled.ne_nil {cs : List Char} (h : PathSpelled cs path) : path ≠ [] := by
  cases h with
  | relative hpath => exact hpath.ne_nil
  | rooted => apply List.cons_ne_nil

theorem PathSpelled.withoutBlanks_eq {cs : List Char} (h : PathSpelled cs path) :
    withoutBlanks cs = (pathText path).toList := by
  cases h with
  | relative hpath => exact hpath.withoutBlanks_eq
  | rooted hbefore hpath =>
    rw [withoutBlanks_append, withoutBlanks_of_all hbefore, withoutBlanks_colons,
      hpath.withoutBlanks_eq, toList_pathText_cons _ _ hpath.ne_nil]
    rfl

theorem strip_of_spelled {text : String} (h : PathSpelled text.toList path) :
    strip text = pathText path := by
  unfold strip
  rw [h.withoutBlanks_eq, String.ofList_toList]

/-! Reading -/

theorem segments_go_append {part : List Char} (hpart : ':' ∉ part) (current rest : List Char) :
    segments.go current (part ++ rest) = segments.go (part.reverse ++ current) rest := by
  induction part generalizing current with
  | nil => rfl
  | cons c part ih =>
    rw [List.mem_cons, not_or] at hpart
    rw [List.cons_append, segments.go]
    · rw [ih hpart.2, List.reverse_cons, List.append_assoc]
      rfl
    · intro rest' hc
      exact absurd hc.symm hpart.1

theorem segments_go_pathText (hpath : path ≠ []) (hsegments : ∀ s ∈ path, isSegment s) :
    segments.go [] (pathText path).toList = path.map String.toList := by
  induction path with
  | nil => exact absurd rfl hpath
  | cons s path ih =>
    rw [List.forall_mem_cons] at hsegments
    have hcolon := colon_not_mem hsegments.1
    cases path with
    | nil =>
      rw [pathText_singleton, ← List.append_nil s.toList, segments_go_append hcolon, segments.go]
      simp
    | cons t path =>
      rw [toList_pathText_cons _ _ (List.cons_ne_nil _ _), segments_go_append hcolon, segments.go,
        ih (List.cons_ne_nil _ _) hsegments.2]
      simp

/--
The text of a path has the segments that it is made of.
-/
theorem segments_pathText (hpath : path ≠ []) (hsegments : ∀ s ∈ path, isSegment s) :
    segments (pathText path) = path := by
  unfold segments
  rw [segments_go_pathText hpath hsegments, List.map_map]
  simp [Function.comp_def]

theorem lastSegment_go_append {part : List Char} (hpart : ':' ∉ part) (tail rest : List Char) :
    lastSegment.go tail (part ++ rest) = lastSegment.go (part.reverse ++ tail) rest := by
  induction part generalizing tail with
  | nil => rfl
  | cons c part ih =>
    rw [List.mem_cons, not_or] at hpart
    rw [List.cons_append, lastSegment.go]
    · rw [ih hpart.2, List.reverse_cons, List.append_assoc]
      rfl
    · intro rest' hc
      exact absurd hc.symm hpart.1

theorem toList_pathText_append_singleton (hpath : path ≠ []) :
    (pathText (path ++ [s])).toList = (pathText path).toList ++ ':' :: ':' :: s.toList := by
  unfold pathText
  rw [String.intercalate_append_of_ne_nil hpath (List.cons_ne_nil _ _), String.toList_append,
    String.toList_append, List.append_assoc, String.intercalate_singleton]
  rfl

theorem lastSegment_pathText (hsegment : isSegment s) :
    lastSegment (pathText (path ++ [s])) = s := by
  have hcolon : ':' ∉ s.toList.reverse := by
    rw [List.mem_reverse]
    exact colon_not_mem hsegment
  unfold lastSegment
  cases path with
  | nil =>
    rw [List.nil_append, pathText_singleton, ← List.append_nil s.toList.reverse,
      lastSegment_go_append hcolon, lastSegment.go]
    simp
  | cons t path =>
    rw [toList_pathText_append_singleton (List.cons_ne_nil _ _), List.reverse_append,
      List.reverse_cons, List.reverse_cons, List.append_assoc, List.append_assoc,
      lastSegment_go_append hcolon]
    simp [lastSegment.go]

/-! Paths that end in a name -/

theorem EndsInName.nil : EndsInName [] := nofun

theorem EndsInName.of_forall (h : ∀ s ∈ path, isSegment s) : EndsInName path := by
  intro s hs
  exact h s (List.mem_of_getLast? hs)

theorem EndsInName.append {outer : List String} (houter : EndsInName outer)
    (hpath : EndsInName path) : EndsInName (outer ++ path) := by
  intro s hs
  rw [List.getLast?_append, Option.mem_def, Option.or_eq_some_iff] at hs
  rcases hs with hs | ⟨-, hs⟩
  · exact hpath s hs
  · exact houter s hs

theorem PathSpelled.endsInName {cs : List Char} (h : PathSpelled cs path) : EndsInName path := by
  cases h with
  | relative hpath => exact .of_forall hpath.isSegment
  | rooted _ hpath =>
    intro s hs
    rw [List.getLast?_cons_of_ne_nil hpath.ne_nil] at hs
    exact EndsInName.of_forall hpath.isSegment s hs

theorem lastSegment_of_endsInName (h : EndsInName path) (hpath : path ≠ []) :
    lastSegment (pathText path) = path.getLastD "" := by
  obtain ⟨init, s, rfl⟩ := (List.eq_nil_or_concat path).resolve_left hpath
  rw [List.concat_eq_append] at h ⊢
  rw [lastSegment_pathText (h s List.getLast?_concat), List.getLastD_concat]

theorem pathText_eq_iff {name : String} (hname : isSegment name) :
    pathText path = name ↔ path = [name] := by
  constructor
  · rintro rfl
    match path, hname with
    | [s], _ => rw [pathText_singleton]
    | s :: t :: path, hname =>
      have hcolon := colon_not_mem hname
      rw [toList_pathText_cons _ _ (List.cons_ne_nil _ _)] at hcolon
      simp at hcolon
  · rintro rfl
    exact pathText_singleton _

theorem pathText_eq_empty (h : EndsInName path) : pathText path = "" ↔ path = [] := by
  constructor
  · intro hempty
    match path, h with
    | [], _ => rfl
    | [s], h =>
      rw [pathText_singleton] at hempty
      exact absurd hempty (ne_empty_of_isSegment (h s rfl))
    | s :: t :: path, _ =>
      have hlist := congrArg String.toList hempty
      rw [toList_pathText_cons _ _ (List.cons_ne_nil _ _)] at hlist
      simp at hlist
  · rintro rfl
    exact pathText_nil

theorem joinPath_pathText {outer : List String} (houter : EndsInName outer)
    (hpath : EndsInName path) :
    joinPath (pathText outer) (pathText path) = pathText (outer ++ path) := by
  unfold joinPath
  simp only [pathText_eq_empty houter, pathText_eq_empty hpath]
  by_cases h₁ : outer = []
  · rw [if_pos h₁, h₁, List.nil_append]
  by_cases h₂ : path = []
  · rw [if_neg h₁, if_pos h₂, h₂, List.append_nil]
  · rw [if_neg h₁, if_neg h₂]
    exact (String.intercalate_append_of_ne_nil h₁ h₂).symm

end PathText

end Polyglot.Rust
