import Mathlib.Data.List.Sort
import Polyglot.Proofs.Provider.Discovery

/-!
This module contains what exclusions do to a search, for every walker that obeys its rules. No
ignore file and no further pattern brings back a name that is always left out, and further patterns
only ever take files away, without changing the order of the others.
-/

namespace Polyglot

/-! Order of paths -/

/--
The text of a component that is a name.
-/
def Component.text : Component → String
  | name text => text
  | _ => ""

theorem Component.compare_eq :
    Component.compare = compareLex (compareOn Component.rank) (compareOn Component.text) := by
  funext a b
  cases a with
  | name a =>
    cases b with
    | name b => rfl
    | _ => rfl
  | _ =>
    cases b with
    | name b => rfl
    | _ => decide

instance : Std.TransCmp Component.compare := by
  rw [Component.compare_eq]
  infer_instance

instance : Std.LawfulEqCmp Component.compare where
  eq_of_compare := by
    intro a b h
    cases a with
    | name a =>
      cases b with
      | name b =>
        have hnames : compare a b = .eq := h
        rw [Std.LawfulEqCmp.eq_of_compare hnames]
      | _ => nomatch h
    | _ =>
      cases b with
      | name b => nomatch h
      | _ =>
        first
        | rfl
        | nomatch h

namespace Path

theorem compare_go_eq : compare.go = List.compareLex Component.compare := by
  funext as bs
  induction as generalizing bs with
  | nil =>
    cases bs with
    | nil => rfl
    | cons b bs => rfl
  | cons a as ih =>
    cases bs with
    | nil => rfl
    | cons b bs =>
      rw [compare.go, List.compareLex_cons_cons, ih]
      cases a.compare b <;> rfl

theorem compare_eq (p q : String) :
    compare p q = List.compareLex Component.compare (components p) (components q) := by
  rw [compare, compare_go_eq]

theorem compare_ne_gt {p q : String} :
    compare p q != .gt ↔
      (List.compareLex Component.compare (components p) (components q)).isLE := by
  rw [compare_eq]
  cases List.compareLex Component.compare (components p) (components q) <;> decide

theorem compare_trans (p q r : String) (hpq : compare p q != .gt) (hqr : compare q r != .gt) :
    compare p r != .gt := by
  rw [compare_ne_gt] at *
  exact Std.TransCmp.isLE_trans hpq hqr

theorem compare_swap (p q : String) : compare q p = (compare p q).swap := by
  rw [compare_eq, compare_eq]
  exact Std.OrientedCmp.eq_swap

theorem compare_total (p q : String) : (compare p q != .gt) || (compare q p != .gt) := by
  rw [compare_swap p q]
  cases compare p q <;> rfl

/--
Different paths do not compare as equal.
-/
theorem compare_lt {p q : String} (hle : compare p q != .gt) (hne : components p ≠ components q) :
    compare p q = .lt := by
  cases hcompare : compare p q with
  | lt => rfl
  | gt =>
    rw [hcompare] at hle
    nomatch hle
  | eq =>
    rw [compare_eq] at hcompare
    exact absurd (Std.LawfulEqCmp.eq_of_compare hcompare) hne

end Path

namespace FoundFile

/--
The order of files by their paths.
-/
def Before (a b : FoundFile) : Prop := Path.compare a.path b.path = .lt

instance : Std.Antisymm Before where
  antisymm a b hab hba := by
    unfold Before at hab hba
    rw [Path.compare_swap, hab] at hba
    nomatch hba

instance : Std.Irrefl Before where
  irrefl a h := by
    have hswap := Path.compare_swap a.path a.path
    unfold Before at h
    rw [h] at hswap
    nomatch hswap

end FoundFile

namespace Provider

variable {p : Provider} {disk : Disk}

theorem pairwise_filesAmong {entries : List (Option Entry)}
    (h : (entries.filterMap id).Pairwise fun a b =>
      Path.components a.path ≠ Path.components b.path) :
    (p.filesAmong entries).Pairwise FoundFile.Before := by
  have hsorted : (p.filesAmong entries).Pairwise fun a b => Path.compare a.path b.path != .gt := by
    apply List.pairwise_mergeSort
    · intro a b c
      apply Path.compare_trans
    · intro a b
      apply Path.compare_total
  have hne := List.pairwise_map.mp (nodup_filesAmong (p := p) h)
  apply (hsorted.and hne).imp
  intro a b ⟨hle, hne⟩
  exact Path.compare_lt hle hne

theorem walker_obeys_search (p : Provider) (hdisk : disk.IsProper) (root : String) :
    Walk.walker.Obeys Walk.rules (p.search disk root) :=
  Walk.walker_obeys hdisk

/--
No file is found through a name that is always left out, whatever ignore files there are and
whatever the further patterns say. Below the root, the path of a file consists of other names.
-/
theorem discover_avoids_defaults (w : Walker) (r : WalkRules) (p : Provider) (disk : Disk)
    (root : String) (hw : w.Obeys r (p.search disk root)) (s : Session) {files : List FoundFile}
    (h : ((p.discover w disk root).run s).1 = .ok files) :
    ∀ file ∈ files, ∃ way : List String,
      Path.components file.path = Path.components root ++ way.map .name ∧
        ∀ name ∈ way, name ∉ defaultNames := by
  intro file hfile
  obtain ⟨overrides, hoverrides, rfl⟩ := discover_eq_ok h
  obtain rfl := Walker.overrides_eq_ok hoverrides
  obtain ⟨entry, hentry, hfound⟩ := mem_filesAmong.mp hfile
  obtain ⟨way, hway, hkept⟩ := (hw.mem_entries _ _).mp hentry
  refine ⟨way, ?_, ?_⟩
  · rw [(foundFile?_eq_some.mp hfound).2.1]
    exact hw.components_path way entry hway
  · intro name hname hdefault
    obtain ⟨front, rest, rfl⟩ := List.append_of_mem hname
    -- The walker has entered the way behind this name, so the name was not left out.
    exact hkept.not_isIgnored (hw.isIgnored_of_mem_defaultNames hdefault _ _ _)

theorem negated_rules_avoid_defaults :
    let p : Provider :=
      ⟨{ provider := { extraIgnore := ["!node_modules", "!**/build"] } }, Language.all⟩
    let disk := (((({} : Disk).write "/p/.gitignore" (pathBytes "!node_modules\n!build/\n")).write
      "/p/node_modules/a.py" []).write "/p/src/build/b.py" []).write "/p/src/c.py" []
    let s : Session := { cache := p.emptyCache }
    let file : FoundFile := ⟨"/p/src/c.py", 0, .python⟩
    Walk.walker.Obeys Walk.rules (p.search disk "/p") ∧
      ((p.discover Walk.walker disk "/p").run s).1 = .ok [file] ∧ ∃ way : List String,
        Path.components file.path = Path.components "/p" ++ way.map .name ∧
          ∀ name ∈ way, name ∉ defaultNames := by
  intro p disk s file
  have hdisk : disk.IsProper :=
    (((Disk.isProper_empty.write _ _).write _ _).write _ _).write _ _
  have hw : Walk.walker.Obeys Walk.rules (p.search disk "/p") :=
    walker_obeys_search p hdisk "/p"
  have hfiles : ((p.discover Walk.walker disk "/p").run s).1 = .ok [file] := by
    apply eq_ok_of_toOption
    decide +kernel
  refine ⟨hw, hfiles,
    discover_avoids_defaults Walk.walker Walk.rules p disk "/p" hw s hfiles file ?_⟩
  apply List.mem_singleton_self

/--
The same provider with other patterns of what is left out.
-/
def withExtraIgnore (p : Provider) (extra : List String) : Provider :=
  { p with
    settings :=
      { p.settings with provider := { p.settings.provider with extraIgnore := extra } } }

/--
With further patterns a search finds some of the same files, in the same order.
-/
theorem discover_sublist_of_subset (w : Walker) (r : WalkRules) (p : Provider) (disk : Disk)
    (root : String) (hw : w.Obeys r (p.search disk root)) {extra more : List String}
    (hextra : extra ⊆ more) (s s' : Session) {files files' : List FoundFile}
    (h : (((p.withExtraIgnore extra).discover w disk root).run s).1 = .ok files)
    (h' : (((p.withExtraIgnore more).discover w disk root).run s').1 = .ok files') :
    files'.Sublist files := by
  obtain ⟨overrides, hoverrides, rfl⟩ := discover_eq_ok h
  obtain ⟨overrides', hoverrides', rfl⟩ := discover_eq_ok h'
  obtain rfl := Walker.overrides_eq_ok hoverrides
  obtain rfl := Walker.overrides_eq_ok hoverrides'
  have hfiles := pairwise_filesAmong (p := p) (hw.pairwise_entries ((exclusions extra).map (·.2)))
  have hfiles' := pairwise_filesAmong (p := p) (hw.pairwise_entries ((exclusions more).map (·.2)))
  -- Both lists are in the strict order of paths, so it is enough to compare their elements.
  apply List.sublist_of_subperm_of_pairwise (List.subperm_of_subset hfiles'.nodup ?_) hfiles' hfiles
  intro file hfile
  obtain ⟨entry, hentry, hfound⟩ := mem_filesAmong.mp hfile
  exact mem_filesAmong.mpr ⟨entry, hw.mem_entries_of_subset hextra hentry, hfound⟩

theorem further_pattern_leaves_out_directory :
    let p : Provider := ⟨{}, Language.all⟩
    let disk := (((({} : Disk).write "p/.gitignore" (pathBytes "!lib/\n")).write "p/a.py" []).write
      "p/gen/g.py" []).write "p/lib/b.py" []
    let s : Session := { cache := p.emptyCache }
    let files : List FoundFile := [⟨"p/a.py", 0, .python⟩, ⟨"p/lib/b.py", 0, .python⟩]
    let files' : List FoundFile := [⟨"p/a.py", 0, .python⟩]
    Walk.walker.Obeys Walk.rules (p.search disk "p") ∧
      (((p.withExtraIgnore ["gen"]).discover Walk.walker disk "p").run s).1 = .ok files ∧
      (((p.withExtraIgnore ["!lib", "lib/", "gen"]).discover Walk.walker disk "p").run s).1 =
        .ok files' ∧
      files'.Sublist files := by
  intro p disk s files files'
  have hdisk : disk.IsProper :=
    (((Disk.isProper_empty.write _ _).write _ _).write _ _).write _ _
  have hw : Walk.walker.Obeys Walk.rules (p.search disk "p") :=
    walker_obeys_search p hdisk "p"
  let q := p.withExtraIgnore ["gen"]
  have hoverrides : Walk.walker.overrides q.settings.provider.extraIgnore =
      .ok ((exclusions ["gen"]).map (·.2)) := by
    apply eq_ok_of_toOption
    decide +kernel
  have hfound : q.filesAmong (Walk.walker.entries (q.search disk "p")
      ((exclusions ["gen"]).map (·.2))) = files := by
    apply filesAmong_eq
    · decide +kernel
    · decide +kernel
  have hfiles : ((q.discover Walk.walker disk "p").run s).1 = .ok files := by
    obtain ⟨_, _, hdiscover⟩ := run_discover hoverrides disk "p" s
    rw [hdiscover, hfound]
  have hfiles' : (((p.withExtraIgnore ["!lib", "lib/", "gen"]).discover Walk.walker disk "p").run
      s).1 = .ok files' := by
    apply eq_ok_of_toOption
    decide +kernel
  exact ⟨hw, hfiles, hfiles',
    discover_sublist_of_subset Walk.walker Walk.rules p disk "p" hw (by decide) s s hfiles hfiles'⟩

end Provider

end Polyglot
