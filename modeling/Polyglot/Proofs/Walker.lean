import Mathlib.Data.List.Basic
import Polyglot.Ignore.Rule
import Polyglot.Project.Walker
import Polyglot.Proofs.Disk

/-!
This module contains what is assumed of a walker, and what follows for exclusions. An override comes
before all ignore files, and a directory that is left out is not entered. Exclusions are negated
whatever their text is, so they can leave something out and never keep anything.
-/

namespace Polyglot

/-! Rules -/

/--
What a walker decides by. What is below the root is given by the names on the way to it.
-/
structure WalkRules where
  /-- What there is at the end of a way, before anything is left out. -/
  entryAt? : FileSearch → (way : List String) → Option Entry
  /-- Whether an override keeps what it applies to. Every other one leaves it out. -/
  keeps : (override : String) → Bool
  applies : FileSearch → (override : String) → (way : List String) → (isDirectory : Bool) → Bool
  /-- What the ignore files say. -/
  ignoreFiles? : FileSearch → (way : List String) → (isDirectory : Bool) → Option Ignore.Verdict

namespace WalkRules

variable (r : WalkRules) (s : FileSearch) (overrides : List String)

/--
What overrides say: the last one that applies decides. As soon as one of them keeps something, files
that none of them applies to are left out.
-/
def overrides? (way : List String) (isDirectory : Bool) : Option Ignore.Verdict :=
  match overrides.reverse.find? (r.applies s · way isDirectory) with
  | some text => some (if r.keeps text then .keep else .ignore)
  | none => if !isDirectory && overrides.any r.keeps then some .ignore else none

/--
Whether what is at the end of a way is left out. Where the overrides say nothing the ignore files
decide.
-/
def isIgnored (way : List String) (isDirectory : Bool) : Bool :=
  (r.overrides? s overrides way isDirectory <|> r.ignoreFiles? s way isDirectory) == some .ignore

/--
Whether nothing on a way is left out: neither what is at its end nor a directory that it leads
through. The way goes on from the place that `before` leads to.
-/
def IsKept (kind : Entry.Kind) (before : List String) : (way : List String) → Prop
  | [] => True
  | name :: rest =>
    ¬ r.isIgnored s overrides (before ++ [name]) (rest ≠ [] ∨ kind = .directory) ∧
      IsKept kind (before ++ [name]) rest

end WalkRules

/--
The characters that have a meaning of their own in patterns.
-/
def globMarks : List Char := ['*', '?', '[', '\x7b', '\x7d', ',', '\\']

/--
A character that stands for itself in a pattern, other than slashes and blanks.
-/
def isPlain (c : Char) : Bool := !globMarks.contains c && c != '/' && !Text.isBlank c

/--
A walker that lists what there is and leaves out what its rules say. A mark of negation is what
makes an override leave something out, and a plain name is looked for in every directory.
-/
structure Walker.Obeys (w : Walker) (r : WalkRules) (s : FileSearch) : Prop where
  mem_entries : ∀ overrides entry, some entry ∈ w.entries s overrides ↔
    ∃ way, r.entryAt? s way = some entry ∧ r.IsKept s overrides entry.kind [] way
  nodup : ∀ overrides, ((w.entries s overrides).filterMap id).Nodup
  components_path : ∀ way entry, r.entryAt? s way = some entry →
    Path.components entry.path = Path.components s.root ++ way.map .name
  keeps_negated : ∀ text, ¬ r.keeps ("!" ++ text)
  applies_name : ∀ name, Path.IsName name → name.toList.all isPlain →
    ∀ before isDirectory, r.applies s ("!" ++ name) (before ++ [name]) isDirectory

namespace WalkRules

variable {r : WalkRules} {s : FileSearch} {overrides : List String}

theorem IsKept.not_isIgnored {kind : Entry.Kind} {before front rest : List String} {name : String}
    (h : r.IsKept s overrides kind before (front ++ name :: rest)) :
    ¬ r.isIgnored s overrides (before ++ front ++ [name]) (rest ≠ [] ∨ kind = .directory) := by
  induction front generalizing before with
  | nil =>
    rw [List.append_nil]
    exact h.1
  | cons first front ih =>
    rw [List.append_cons before]
    exact ih h.2

theorem IsKept.imp {others : List String}
    (hignored : ∀ way isDirectory, r.isIgnored s others way isDirectory →
      r.isIgnored s overrides way isDirectory)
    {kind : Entry.Kind} {before way : List String} (h : r.IsKept s overrides kind before way) :
    r.IsKept s others kind before way := by
  induction way generalizing before with
  | nil => trivial
  | cons name rest ih => exact ⟨fun hothers => h.1 (hignored _ _ hothers), ih h.2⟩

/--
If no override keeps anything, each of them leaves out what it applies to.
-/
theorem overrides?_eq (h : ∀ text ∈ overrides, ¬ r.keeps text) (way : List String)
    (isDirectory : Bool) :
    r.overrides? s overrides way isDirectory =
      if overrides.any (r.applies s · way isDirectory) then some .ignore else none := by
  unfold overrides?
  cases hfind : overrides.reverse.find? (r.applies s · way isDirectory) with
  | none =>
    have hkeeps : ¬ overrides.any r.keeps := by
      simpa using h
    have happlies : ¬ overrides.any (r.applies s · way isDirectory) := by
      simpa using hfind
    rw [if_neg happlies]
    simp [hkeeps]
  | some text =>
    have htext : text ∈ overrides := List.mem_reverse.mp (List.mem_of_find?_eq_some hfind)
    have hsome := List.find?_some hfind
    have happlies : overrides.any (r.applies s · way isDirectory) :=
      List.any_eq_true.mpr ⟨text, htext, hsome⟩
    simp only [if_pos happlies, if_neg (h text htext)]

theorem isIgnored_of_applies (h : ∀ text ∈ overrides, ¬ r.keeps text) {text : String}
    (htext : text ∈ overrides) {way : List String} {isDirectory : Bool}
    (happlies : r.applies s text way isDirectory) : r.isIgnored s overrides way isDirectory := by
  unfold isIgnored
  rw [overrides?_eq h, if_pos (List.any_eq_true.mpr ⟨text, htext, happlies⟩)]
  rfl

/--
With further overrides that keep nothing, at least as much is left out.
-/
theorem isIgnored_of_subset {others : List String} (hsubset : others ⊆ overrides)
    (h : ∀ text ∈ overrides, ¬ r.keeps text) {way : List String} {isDirectory : Bool}
    (hignored : r.isIgnored s others way isDirectory) :
    r.isIgnored s overrides way isDirectory := by
  have hothers : ∀ text ∈ others, ¬ r.keeps text := fun text htext => h text (hsubset htext)
  by_cases hany : overrides.any (r.applies s · way isDirectory)
  case pos =>
    obtain ⟨text, htext, happlies⟩ := List.any_eq_true.mp hany
    exact isIgnored_of_applies h htext happlies
  case neg =>
    -- Where no override applies the ignore files decide, with and without the further ones.
    have hnone : ¬ others.any (r.applies s · way isDirectory) := by
      intro hsome
      obtain ⟨text, htext, happlies⟩ := List.any_eq_true.mp hsome
      exact hany (List.any_eq_true.mpr ⟨text, hsubset htext, happlies⟩)
    unfold isIgnored at hignored ⊢
    rw [overrides?_eq hothers, if_neg hnone] at hignored
    rw [overrides?_eq h, if_neg hany]
    exact hignored

end WalkRules

/-! Exclusions -/

theorem Walker.overrides_eq_ok {w : Walker} {extra texts : List String}
    (h : w.overrides extra = .ok texts) : texts = (exclusions extra).map (·.2) := by
  simp only [overrides, bind, Except.bind] at h
  split at h
  case h_1 => nomatch h
  case h_2 =>
    split at h
    case h_1 => nomatch h
    case h_2 => exact (Except.ok.inj h).symm

theorem exists_of_mem_exclusions {extra : List String} {text : String}
    (h : text ∈ (exclusions extra).map (·.2)) : ∃ rest, text = "!" ++ rest := by
  unfold exclusions at h
  rw [List.map_append, List.mem_append, List.map_flatMap, List.mem_flatMap, List.map_map,
    List.mem_map] at h
  obtain ⟨name, -, hname⟩ | ⟨pattern, -, rfl⟩ := h
  · obtain rfl | rfl : text = "!" ++ name ++ "/**" ∨ text = "!" ++ name := by
      simpa using hname
    · exact ⟨name ++ "/**", String.append_assoc⟩
    · exact ⟨name, rfl⟩
  · exact ⟨pattern, rfl⟩

theorem exclusions_subset {extra more : List String} (h : extra ⊆ more) :
    (exclusions extra).map (·.2) ⊆ (exclusions more).map (·.2) := by
  apply List.map_subset
  apply List.append_subset.mpr ⟨List.subset_append_left _ _, ?_⟩
  exact List.subset_append_of_subset_right _ (List.map_subset _ h)

theorem negated_mem_exclusions {name : String} (h : name ∈ defaultNames) (extra : List String) :
    "!" ++ name ∈ (exclusions extra).map (·.2) := by
  refine List.mem_map.mpr ⟨(name, "!" ++ name), List.mem_append_left _ ?_, rfl⟩
  exact List.mem_flatMap.mpr ⟨name, h, by simp⟩

/--
The names that are always left out are plain ones.
-/
theorem isPlain_of_mem_defaultNames {name : String} (h : name ∈ defaultNames) :
    Path.IsName name ∧ name.toList.all isPlain := by
  have hnames : ∀ name ∈ defaultNames, name ≠ "" ∧ name ≠ "." ∧ name ≠ ".." := by
    decide
  have hplain : defaultNames.all (·.toList.all isPlain) := by
    decide +kernel
  have hname := List.all_eq_true.mp hplain name h
  obtain ⟨hempty, hcurrent, hparent⟩ := hnames name h
  refine ⟨⟨hempty, hcurrent, hparent, ?_⟩, hname⟩
  intro hslash
  exact absurd (List.all_eq_true.mp hname '/' hslash) (by decide)

namespace Walker.Obeys

variable {w : Walker} {r : WalkRules} {s : FileSearch} (hw : w.Obeys r s)

include hw

theorem not_keeps_exclusions (extra : List String) :
    ∀ text ∈ (exclusions extra).map (·.2), ¬ r.keeps text := by
  intro text htext
  obtain ⟨rest, rfl⟩ := exists_of_mem_exclusions htext
  exact hw.keeps_negated rest

/--
A name that is always left out is left out in every directory, whatever the ignore files and the
further patterns say.
-/
theorem isIgnored_of_mem_defaultNames {name : String} (hname : name ∈ defaultNames)
    (extra before : List String) (isDirectory : Bool) :
    r.isIgnored s ((exclusions extra).map (·.2)) (before ++ [name]) isDirectory := by
  obtain ⟨hproper, hplain⟩ := isPlain_of_mem_defaultNames hname
  apply WalkRules.isIgnored_of_applies (hw.not_keeps_exclusions extra)
    (negated_mem_exclusions hname extra)
  exact hw.applies_name name hproper hplain before isDirectory

theorem isIgnored_of_subset {extra more : List String} (h : extra ⊆ more) (way : List String)
    (isDirectory : Bool) (hignored : r.isIgnored s ((exclusions extra).map (·.2)) way isDirectory) :
    r.isIgnored s ((exclusions more).map (·.2)) way isDirectory :=
  WalkRules.isIgnored_of_subset (exclusions_subset h) (hw.not_keeps_exclusions more) hignored

/--
With further patterns a walker lists nothing else than it lists without them.
-/
theorem mem_entries_of_subset {extra more : List String} (h : extra ⊆ more) {entry : Entry}
    (hentry : some entry ∈ w.entries s ((exclusions more).map (·.2))) :
    some entry ∈ w.entries s ((exclusions extra).map (·.2)) := by
  obtain ⟨way, hway, hkept⟩ := (hw.mem_entries _ _).mp hentry
  exact (hw.mem_entries _ _).mpr ⟨way, hway, hkept.imp (hw.isIgnored_of_subset h)⟩

/--
No path is listed twice.
-/
theorem pairwise_entries (overrides : List String) :
    ((w.entries s overrides).filterMap id).Pairwise fun a b =>
      Path.components a.path ≠ Path.components b.path := by
  apply (hw.nodup overrides).imp_of_mem
  intro a b ha hb hne hsame
  rw [List.mem_filterMap] at ha hb
  obtain ⟨_, ha, rfl⟩ := ha
  obtain ⟨_, hb, rfl⟩ := hb
  obtain ⟨way, hway, -⟩ := (hw.mem_entries _ _).mp ha
  obtain ⟨other, hother, -⟩ := (hw.mem_entries _ _).mp hb
  -- Both ways have the same names, so they lead to the same entry.
  rw [hw.components_path _ _ hway, hw.components_path _ _ hother, List.append_cancel_left_eq,
    List.map_inj_right fun _ _ => Component.name.inj] at hsame
  rw [hsame, hother] at hway
  exact hne (Option.some.inj hway).symm

end Walker.Obeys

/-! Files -/

/--
Whether a root is found itself because it is no directory. A dash names no file.
-/
def IsRootFile (disk : Disk) (root : String) : Prop :=
  root ≠ "-" ∧ ∃ item, disk.itemNamed root = .ok item ∧ item ≠ .directory

/--
A walker that lists regular files, none larger than a search asks for, and no path twice. A root
that is a file is listed as it is. The path of a file may be too long to be followed, but whatever
is found there is the file that was listed.
-/
structure Walker.ListsFiles (w : Walker) (s : FileSearch) : Prop where
  pairwise : ∀ overrides, ((w.entries s overrides).filterMap id).Pairwise fun a b =>
    Path.components a.path ≠ Path.components b.path
  below : ¬ IsRootFile s.disk s.root → ∀ overrides entry, some entry ∈ w.entries s overrides →
    entry.kind = .file → ∃ size ≤ s.maxSize, entry.size = some size ∧
      ∀ item, s.disk.itemNamed entry.path = .ok item →
        ∃ content, item = .file content ∧ content.length = size
  root : IsRootFile s.disk s.root → ∀ overrides,
    w.entries s overrides = [some ⟨s.root, .file, s.disk.ownSize? s.root⟩]

end Polyglot
