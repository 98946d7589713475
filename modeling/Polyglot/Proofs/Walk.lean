import Mathlib.Data.List.Induction
import Mathlib.Data.List.Nodup
import Polyglot.Project.Walk
import Polyglot.Proofs.Overrides

/-!
This module contains the rules of the walker for directories with ignore files. It lists what can be
reached from the root name by name, and the path of a file leads to the file that it has seen.
-/

namespace Polyglot

namespace Disk

theorem origin_of_isName {name : String} (hname : Path.IsName name) (here : Location) :
    origin here name = here := by
  unfold origin
  apply if_neg
  rw [Path.isAbsolute, beq_iff_eq]
  intro hhead
  exact hname.noSlash (List.mem_of_head? hhead)

theorem origin_join {path : String} (hpath : path ≠ "") (name : String) (here : Location) :
    origin here (Path.join path name) = origin here path := by
  unfold origin
  rw [Path.isAbsolute_join hpath]

end Disk

namespace Walk

variable {s : FileSearch}

/-! Entries of a directory -/

@[simp]
theorem Place.kind_entry (p : Place) : p.entry.kind = .directory := rfl

/--
The path of a place leads to it.
-/
structure Place.IsReached (s : FileSearch) (p : Place) : Prop where
  path_ne : p.path ≠ ""
  leads : s.disk.Leads (Disk.origin s.disk.workingDirectory p.path) (Path.pieces p.path) p.location

theorem Place.IsReached.leads_join {p : Place} (hp : p.IsReached s) {name : String}
    (hname : Path.IsName name) {location : Location}
    (h : s.disk.Leads p.location [name] location) :
    s.disk.Leads (Disk.origin s.disk.workingDirectory (Path.join p.path name))
      (Path.pieces (Path.join p.path name)) location := by
  rw [Disk.origin_join hp.path_ne]
  exact hp.leads.join hp.path_ne hname h

section Target

variable {p : Place} {name : String}

theorem mem_names_of_target (h : target s p name ≠ .nothing) :
    name ∈ s.disk.names p.location := by
  unfold target at h
  split at h
  case h_1 => exact absurd rfl h
  case h_2 hitem => exact Disk.mem_names_of_item? hitem
  case h_3 hitem => exact Disk.mem_names_of_item? hitem
  case h_4 hitem => exact Disk.mem_names_of_item? hitem

theorem kind_ne_of_target {kind : Entry.Kind} {size : Nat} (h : target s p name = .leaf kind size) :
    kind ≠ .directory := by
  rintro rfl
  unfold target at h
  split at h
  case h_4 =>
    split at h
    case isTrue => nomatch h
    case isFalse =>
      split at h
      case h_1 => nomatch h
      case h_2 =>
        split at h
        case h_2 => split at h <;> nomatch h
        all_goals nomatch h
  all_goals nomatch h

variable (hname : Path.IsName name)

include hname

/--
The name of an entry leads to the file or to the directory that the entry stands for.
-/
theorem target_cases :
    target s p name = .nothing ∨ target s p name = .broken ∨
      (∃ size, target s p name = .leaf .other size) ∨
      ∃ location, s.disk.Leads p.location [name] location ∧
        (target s p name = .directory location ∨
          ∃ content, s.disk.item? location = some (.file content) ∧
            target s p name = .leaf .file content.length) := by
  unfold target
  split
  case h_1 => exact .inl rfl
  case h_2 content hitem =>
    refine .inr (.inr (.inr ⟨p.location ++ [name], ?_, .inr ⟨content, hitem, rfl⟩⟩))
    apply Disk.leads_of_item? hname hitem nofun
  case h_3 hitem =>
    refine .inr (.inr (.inr ⟨p.location ++ [name], ?_, .inl rfl⟩))
    apply Disk.leads_of_item? hname hitem nofun
  case h_4 =>
    split
    case isTrue => exact .inr (.inr (.inl ⟨_, rfl⟩))
    case isFalse =>
      split
      case h_1 => exact .inr (.inl rfl)
      case h_2 location hresolve =>
        have hleads := Disk.leads_of_resolve hresolve
        rw [Path.pieces_of_isName hname, Disk.origin_of_isName hname] at hleads
        split
        case h_1 content hitem =>
          exact .inr (.inr (.inr ⟨location, hleads, .inr ⟨content, hitem, rfl⟩⟩))
        case h_2 =>
          split
          case isTrue => exact .inr (.inl rfl)
          case isFalse => exact .inr (.inr (.inr ⟨location, hleads, .inl rfl⟩))
        case h_3 => exact .inr (.inl rfl)

theorem leads_of_target_file {size : Nat} (h : target s p name = .leaf .file size) :
    ∃ location content, s.disk.Leads p.location [name] location ∧
      s.disk.item? location = some (.file content) ∧ content.length = size := by
  have hcases := target_cases (s := s) (p := p) hname
  rw [h] at hcases
  obtain hcase | hcase | ⟨_, hcase⟩ | ⟨location, hleads, hcase | ⟨content, hitem, hcase⟩⟩ := hcases
  case inr.inr.inr.inr =>
    cases hcase
    exact ⟨location, content, hleads, hitem, rfl⟩
  all_goals nomatch hcase

theorem leads_of_target_directory {location : Location}
    (h : target s p name = .directory location) : s.disk.Leads p.location [name] location := by
  have hcases := target_cases (s := s) (p := p) hname
  rw [h] at hcases
  obtain hcase | hcase | ⟨_, hcase⟩ | ⟨_, hleads, hcase | ⟨_, _, hcase⟩⟩ := hcases
  case inr.inr.inr.inl =>
    cases hcase
    exact hleads
  all_goals nomatch hcase

end Target

/-! Places -/

/--
The place that a search enters by the name of an entry.
-/
def enter? (s : FileSearch) (p : Place) (name : String) : Option Place :=
  match target s p name with
  | .directory location => some (p.enter s.disk name location)
  | _ => none

/--
What an entry is listed as if it is not left out.
-/
def entryOf? (s : FileSearch) (p : Place) (name : String) : Option Entry :=
  match target s p name with
  | .leaf kind size =>
    if s.maxSize < size then none else some ⟨Path.join p.path name, kind, some size⟩
  | .directory location => some (p.enter s.disk name location).entry
  | _ => none

/--
The place that a search begins at, if the root is a directory.
-/
def start? (s : FileSearch) : Option Place :=
  if s.root = "-" then none
  else
    match s.disk.resolve s.disk.workingDirectory s.root with
    | .error _ => none
    | .ok location => if s.disk.isDirectory location then some (start s location) else none

/--
The place at the end of a way.
-/
def placeAt? (s : FileSearch) (way : List String) : Option Place :=
  (start? s).bind fun p => way.foldlM (enter? s) p

theorem placeAt?_append (s : FileSearch) (way rest : List String) :
    placeAt? s (way ++ rest) = (placeAt? s way).bind fun p => rest.foldlM (enter? s) p := by
  unfold placeAt?
  cases start? s with
  | none => rfl
  | some p => exact List.foldlM_append

theorem placeAt?_concat (s : FileSearch) (way : List String) (name : String) :
    placeAt? s (way ++ [name]) = (placeAt? s way).bind (enter? s · name) := by
  rw [placeAt?_append]
  congr 1
  funext p
  rw [List.foldlM_cons]
  cases enter? s p name with
  | none => rfl
  | some q => rfl

theorem enter?_eq_some {p q : Place} {name : String} :
    enter? s p name = some q ↔
      ∃ location, target s p name = .directory location ∧ p.enter s.disk name location = q := by
  unfold enter?
  cases target s p name with
  | directory location => simp
  | _ => simp

/--
What is known of the place at the end of a way.
-/
structure Place.IsAt (s : FileSearch) (way : List String) (p : Place) : Prop where
  isReached : p.IsReached s
  components_path : Path.components p.path = Path.components s.root ++ way.map .name
  lead : p.lead = way.foldl Path.join ((doubledLead? s.root).getD "")

theorem Place.IsAt.enter (hd : s.disk.IsProper) {way : List String} {p q : Place} {name : String}
    (hp : p.IsAt s way) (h : enter? s p name = some q) : q.IsAt s (way ++ [name]) := by
  obtain ⟨location, htarget, rfl⟩ := enter?_eq_some.mp h
  have hname : Path.IsName name := by
    apply hd.isName_of_mem_names
    apply mem_names_of_target (p := p)
    rw [htarget]
    nofun
  have hne := hp.isReached.path_ne
  constructor
  · constructor
    · apply Path.join_ne_empty _ hname
    · exact hp.isReached.leads_join hname (leads_of_target_directory hname htarget)
  · rw [List.map_append, ← List.append_assoc, ← hp.components_path]
    exact Path.components_join hne hname
  · rw [List.foldl_append, ← hp.lead]
    rfl

theorem start?_eq_some {p : Place} (h : start? s = some p) :
    s.root ≠ "-" ∧ ∃ location, s.disk.resolve s.disk.workingDirectory s.root = .ok location ∧
      s.disk.isDirectory location ∧ p = start s location := by
  unfold start? at h
  split at h
  case isTrue => nomatch h
  case isFalse hdash =>
    split at h
    case h_1 => nomatch h
    case h_2 location hresolve =>
      split at h
      case isFalse => nomatch h
      case isTrue hdirectory =>
        exact ⟨hdash, location, hresolve, hdirectory, (Option.some.inj h).symm⟩

theorem isAt_start {p : Place} (h : start? s = some p) : p.IsAt s [] := by
  obtain ⟨-, location, hresolve, -, rfl⟩ := start?_eq_some h
  refine ⟨⟨?_, Disk.leads_of_resolve hresolve⟩, (List.append_nil _).symm, rfl⟩
  exact (Disk.walkTo_of_locate (Disk.locate_of_resolve hresolve).1).1

theorem isAt_of_placeAt? (hd : s.disk.IsProper) {way : List String} {p : Place}
    (h : placeAt? s way = some p) : p.IsAt s way := by
  induction way using List.reverseRecOn generalizing p with
  | nil =>
    apply isAt_start
    simpa [placeAt?] using h
  | append_singleton way name ih =>
    rw [placeAt?_concat, Option.bind_eq_some_iff] at h
    obtain ⟨q, hq, henter⟩ := h
    exact (ih hq).enter hd henter

/-! Rules -/

/--
What there is at the end of a way that leads through directories.
-/
def entryBelow? (s : FileSearch) (way : List String) : Option Entry :=
  match way.getLast? with
  | none => none
  | some name => (placeAt? s way.dropLast).bind (entryOf? s · name)

/--
What the root itself is listed as.
-/
def entryOfRoot? (s : FileSearch) : Option Entry :=
  if s.root = "-" then some ⟨s.root, .other, none⟩
  else
    match s.disk.resolve s.disk.workingDirectory s.root with
    | .error _ => none
    | .ok location =>
      if s.disk.isDirectory location then some (start s location).entry
      else some ⟨s.root, .file, s.disk.ownSize? s.root⟩

def rules : WalkRules where
  entryAt? s way :=
    if way = [] then entryOfRoot? s
    else if way.length ≤ maxDepth s.disk then entryBelow? s way
    else none
  keeps := Ignore.overrideKeeps
  applies s text way isDirectory :=
    let path := way.foldl Path.join ((doubledLead? s.root).getD "")
    Ignore.overrideApplies text (pathBytes path) isDirectory
  ignoreFiles? s way isDirectory :=
    match way.getLast? with
    | none => none
    | some name =>
      (placeAt? s way.dropLast).bind fun p => IgnoreLevel.verdict? p.levels name isDirectory

theorem entryBelow?_concat (s : FileSearch) (way : List String) (name : String) :
    entryBelow? s (way ++ [name]) = (placeAt? s way).bind (entryOf? s · name) := by
  simp [entryBelow?]

section At

variable (hd : s.disk.IsProper) {before : List String} {p : Place} (hp : placeAt? s before = some p)

include hd hp

theorem isIgnored_eq (overrides : List String) (name : String) (isDirectory : Bool) :
    isIgnored (Ignore.overrideRules overrides) p name isDirectory =
      rules.isIgnored s overrides (before ++ [name]) isDirectory := by
  unfold isIgnored WalkRules.isIgnored WalkRules.overrides?
  simp only [Ignore.precedence?_overrideRules, rules, List.getLast?_concat, List.dropLast_concat,
    hp, Option.bind_some, List.foldl_append, List.foldl_cons, List.foldl_nil,
    ← (isAt_of_placeAt? hd hp).lead]
  rfl

omit hd in
theorem entryBelow?_of_enter?_none {name : String} (h : enter? s p name = none)
    {rest : List String} (hrest : rest ≠ []) : entryBelow? s (before ++ name :: rest) = none := by
  obtain ⟨front, last, rfl⟩ := List.eq_nil_or_concat rest |>.resolve_left hrest
  rw [List.concat_eq_append, ← List.cons_append, ← List.append_assoc, entryBelow?_concat,
    placeAt?_append, hp, Option.bind_some, List.foldlM_cons, h]
  rfl

end At

/-! What is listed -/

/--
What is listed for an entry of a directory.
-/
def listed (s : FileSearch) (overrides : List Ignore.Rule) (depth : Nat) (p : Place)
    (name : String) : List (Option Entry) :=
  match target s p name with
  | .nothing => []
  | .broken => [none]
  | .leaf kind size =>
    if isIgnored overrides p name false || s.maxSize < size then []
    else [some ⟨Path.join p.path name, kind, some size⟩]
  | .directory location =>
    if isIgnored overrides p name true then []
    else
      let place := p.enter s.disk name location
      some place.entry :: below s overrides depth place

theorem below_succ (overrides : List Ignore.Rule) (depth : Nat) (p : Place) :
    below s overrides (depth + 1) p =
      (s.disk.names p.location).flatMap (listed s overrides depth p) := rfl

section Listed

variable (hd : s.disk.IsProper) (overrides : List String)

include hd

/--
The walker lists what is at the end of a way on which nothing is left out.
-/
def ListsBelow (s : FileSearch) (overrides : List String) (depth : Nat) : Prop :=
  ∀ before p, placeAt? s before = some p → ∀ entry,
    some entry ∈ below s (Ignore.overrideRules overrides) depth p ↔
      ∃ way, way ≠ [] ∧ way.length ≤ depth ∧ entryBelow? s (before ++ way) = some entry ∧
        rules.IsKept s overrides entry.kind before way

theorem mem_listed_directory {depth : Nat} (hbelow : ListsBelow s overrides depth)
    {before : List String} {p : Place} (hp : placeAt? s before = some p) {name : String}
    {location : Location} (htarget : target s p name = .directory location) (entry : Entry) :
    some entry ∈ listed s (Ignore.overrideRules overrides) depth p name ↔
      ∃ rest, rest.length ≤ depth ∧ entryBelow? s (before ++ name :: rest) = some entry ∧
        rules.IsKept s overrides entry.kind before (name :: rest) := by
  let place := p.enter s.disk name location
  have hplace : placeAt? s (before ++ [name]) = some place := by
    rw [placeAt?_concat, hp, Option.bind_some, enter?_eq_some.mpr ⟨location, htarget, rfl⟩]
  have hentry : entryBelow? s (before ++ [name]) = some place.entry := by
    rw [entryBelow?_concat, hp, Option.bind_some, entryOf?, htarget]
  simp only [listed, htarget, isIgnored_eq hd hp]
  constructor
  · intro hmem
    split at hmem
    case isTrue => nomatch hmem
    case isFalse hkept =>
      obtain hroot | hmem := List.mem_cons.mp hmem
      · cases hroot
        refine ⟨[], Nat.zero_le _, hentry, ?_, trivial⟩
        simpa using hkept
      · obtain ⟨way, hne, hlength, hway, hrest⟩ := (hbelow _ _ hplace entry).mp hmem
        rw [List.append_assoc] at hway
        refine ⟨way, hlength, hway, ?_, hrest⟩
        simpa [hne] using hkept
  · rintro ⟨rest, hlength, hway, hkept, hrest⟩
    by_cases hnil : rest = []
    · subst hnil
      rw [hentry] at hway
      cases hway
      rw [if_neg (by simpa using hkept)]
      apply List.mem_cons_self
    · rw [if_neg (by simpa [hnil] using hkept)]
      apply List.mem_cons_of_mem
      rw [List.append_cons] at hway
      exact (hbelow _ _ hplace entry).mpr ⟨rest, hnil, hlength, hway, hrest⟩

theorem mem_listed {depth : Nat} (hbelow : ListsBelow s overrides depth) {before : List String}
    {p : Place} (hp : placeAt? s before = some p) (name : String) (entry : Entry) :
    some entry ∈ listed s (Ignore.overrideRules overrides) depth p name ↔
      ∃ rest, rest.length ≤ depth ∧ entryBelow? s (before ++ name :: rest) = some entry ∧
        rules.IsKept s overrides entry.kind before (name :: rest) := by
  by_cases hdirectory : ∃ location, target s p name = .directory location
  case pos =>
    obtain ⟨location, htarget⟩ := hdirectory
    exact mem_listed_directory hd overrides hbelow hp htarget entry
  -- Nothing is below an entry that is no directory.
  have hnone : enter? s p name = none := by
    rw [Option.eq_none_iff_forall_ne_some]
    intro q hq
    obtain ⟨location, htarget, -⟩ := enter?_eq_some.mp hq
    exact hdirectory ⟨location, htarget⟩
  have hentry : entryBelow? s (before ++ [name]) = entryOf? s p name := by
    rw [entryBelow?_concat, hp, Option.bind_some]
  have honly : (∃ rest, rest.length ≤ depth ∧ entryBelow? s (before ++ name :: rest) = some entry ∧
      rules.IsKept s overrides entry.kind before (name :: rest)) ↔
      entryOf? s p name = some entry ∧
        ¬ isIgnored (Ignore.overrideRules overrides) p name (entry.kind = .directory) := by
    rw [isIgnored_eq hd hp]
    constructor
    · rintro ⟨rest, -, hway, hkept, -⟩
      by_cases hnil : rest = []
      · subst hnil
        rw [hentry] at hway
        exact ⟨hway, by simpa using hkept⟩
      · rw [entryBelow?_of_enter?_none hp hnone hnil] at hway
        nomatch hway
    · rintro ⟨hway, hkept⟩
      exact ⟨[], Nat.zero_le _, hentry.trans hway, by simpa using hkept, trivial⟩
  rw [honly]
  unfold listed entryOf?
  cases htarget : target s p name with
  | nothing => simp
  | broken => simp
  | directory location => exact absurd ⟨location, htarget⟩ hdirectory
  | leaf kind size =>
    have hkind := kind_ne_of_target htarget
    by_cases hlarge : s.maxSize < size
    · simp [hlarge]
    · simp only [hlarge, decide_false, Bool.or_false, if_false, Option.some.injEq]
      constructor
      · intro hmem
        split at hmem
        case isTrue => nomatch hmem
        case isFalse hkept =>
          cases List.mem_singleton.mp hmem
          exact ⟨rfl, by simpa [hkind] using hkept⟩
      · rintro ⟨rfl, hkept⟩
        rw [if_neg (by simpa [hkind] using hkept)]
        apply List.mem_singleton_self

theorem listsBelow (depth : Nat) : ListsBelow s overrides depth := by
  induction depth with
  | zero =>
    intro before p hp entry
    constructor
    · intro hmem
      nomatch hmem
    · rintro ⟨way, hne, hlength, -⟩
      exact absurd (List.eq_nil_of_length_eq_zero (Nat.le_zero.mp hlength)) hne
  | succ depth ih =>
    intro before p hp entry
    rw [below_succ, List.mem_flatMap]
    constructor
    · rintro ⟨name, -, hmem⟩
      obtain ⟨rest, hlength, hway, hkept⟩ := (mem_listed hd overrides ih hp name entry).mp hmem
      exact ⟨name :: rest, nofun, Nat.succ_le_succ hlength, hway, hkept⟩
    · rintro ⟨way, hne, hlength, hway, hkept⟩
      obtain ⟨name, rest, rfl⟩ := List.exists_cons_of_ne_nil hne
      have hmem := (mem_listed hd overrides ih hp name entry).mpr
        ⟨rest, Nat.le_of_succ_le_succ hlength, hway, hkept⟩
      refine ⟨name, ?_, hmem⟩
      apply mem_names_of_target (p := p)
      intro hnothing
      simp [listed, hnothing] at hmem

omit hd in
theorem entryOf?_eq_some {p : Place} {name : String} {entry : Entry}
    (h : entryOf? s p name = some entry) :
    name ∈ s.disk.names p.location ∧ entry.path = Path.join p.path name := by
  unfold entryOf? at h
  cases htarget : target s p name with
  | nothing =>
    rw [htarget] at h
    nomatch h
  | broken =>
    rw [htarget] at h
    nomatch h
  | leaf kind size =>
    refine ⟨mem_names_of_target (by simp [htarget]), ?_⟩
    simp only [htarget] at h
    split at h
    case isTrue => nomatch h
    case isFalse =>
      cases h
      rfl
  | directory location =>
    refine ⟨mem_names_of_target (by simp [htarget]), ?_⟩
    simp only [htarget] at h
    cases h
    rfl

theorem components_of_entryBelow? {way : List String} {entry : Entry}
    (h : entryBelow? s way = some entry) :
    Path.components entry.path = Path.components s.root ++ way.map .name := by
  obtain rfl | ⟨front, name, rfl⟩ := List.eq_nil_or_concat way
  · nomatch h
  rw [List.concat_eq_append, entryBelow?_concat, Option.bind_eq_some_iff] at h
  obtain ⟨p, hp, hentry⟩ := h
  obtain ⟨hname, hpath⟩ := entryOf?_eq_some hentry
  have hat := isAt_of_placeAt? hd hp
  rw [hpath, Path.components_join hat.isReached.path_ne (hd.isName_of_mem_names hname),
    hat.components_path, List.concat_eq_append, List.map_append, List.append_assoc]
  rfl

/--
The paths among what is listed.
-/
def paths (entries : List (Option Entry)) : List (List Component) :=
  (entries.filterMap id).map fun entry => Path.components entry.path

omit hd in
theorem mem_paths {entries : List (Option Entry)} {path : List Component} :
    path ∈ paths entries ↔ ∃ entry, some entry ∈ entries ∧ Path.components entry.path = path := by
  simp [paths]

variable {overrides} {before : List String} {p : Place} (hp : placeAt? s before = some p)

include hp

theorem exists_of_mem_paths_listed {depth : Nat} {name : String} {path : List Component}
    (h : path ∈ paths (listed s (Ignore.overrideRules overrides) depth p name)) :
    ∃ rest : List String,
      path = Path.components s.root ++ (before ++ name :: rest).map .name := by
  obtain ⟨entry, hmem, rfl⟩ := mem_paths.mp h
  obtain ⟨rest, -, hway, -⟩ :=
    (mem_listed hd overrides (listsBelow hd overrides depth) hp name entry).mp hmem
  exact ⟨rest, components_of_entryBelow? hd hway⟩

theorem components_not_mem_paths_below (depth : Nat) :
    Path.components p.path ∉ paths (below s (Ignore.overrideRules overrides) depth p) := by
  intro h
  obtain ⟨entry, hmem, hsame⟩ := mem_paths.mp h
  obtain ⟨way, hne, -, hway, -⟩ := (listsBelow hd overrides depth before p hp entry).mp hmem
  have hlength := congrArg List.length hsame
  rw [components_of_entryBelow? hd hway, (isAt_of_placeAt? hd hp).components_path] at hlength
  simp [hne] at hlength

theorem nodup_paths_below (depth : Nat) :
    (paths (below s (Ignore.overrideRules overrides) depth p)).Nodup := by
  induction depth generalizing before p with
  | zero => apply List.nodup_nil
  | succ depth ih =>
    rw [below_succ, paths, List.filterMap_flatMap, List.map_flatMap, List.nodup_flatMap]
    constructor
    · intro name _
      change (paths (listed s (Ignore.overrideRules overrides) depth p name)).Nodup
      unfold listed
      cases htarget : target s p name with
      | nothing => apply List.nodup_nil
      | broken => apply List.nodup_nil
      | leaf kind size =>
        dsimp only
        split
        case isTrue => apply List.nodup_nil
        case isFalse => apply List.nodup_singleton
      | directory location =>
        dsimp only
        split
        case isTrue => apply List.nodup_nil
        case isFalse =>
          have hplace : placeAt? s (before ++ [name]) = some (p.enter s.disk name location) := by
            rw [placeAt?_concat, hp, Option.bind_some, enter?_eq_some.mpr ⟨location, htarget, rfl⟩]
          exact List.nodup_cons.mpr ⟨components_not_mem_paths_below hd hplace depth, ih hplace⟩
    · apply (hd.nodup_names p.location).imp
      intro a b hab path ha hb
      obtain ⟨rest, hrest⟩ := exists_of_mem_paths_listed hd hp ha
      obtain ⟨other, hother⟩ := exists_of_mem_paths_listed hd hp hb
      rw [hrest] at hother
      simp at hother
      exact hab hother.1

end Listed

/-! From a root -/

theorem entryOfRoot?_of_start? {p : Place} (h : start? s = some p) :
    entryOfRoot? s = some p.entry := by
  obtain ⟨hdash, location, hresolve, hdirectory, rfl⟩ := start?_eq_some h
  simp only [entryOfRoot?, if_neg hdash, hresolve, if_pos hdirectory]

theorem entries_of_start? {p : Place} (h : start? s = some p) (overrides : List Ignore.Rule) :
    (entries s overrides).filterMap id =
      p.entry :: (below s overrides (maxDepth s.disk) p).filterMap id := by
  obtain ⟨hdash, location, hresolve, hdirectory, rfl⟩ := start?_eq_some h
  simp only [entries, if_neg hdash, hresolve, if_pos hdirectory, List.filterMap_append]
  split
  case isTrue => rfl
  case isFalse => rfl

theorem entries_of_start?_none (h : start? s = none) (overrides : List Ignore.Rule) :
    (entries s overrides).filterMap id = (entryOfRoot? s).toList := by
  unfold start? at h
  unfold entries entryOfRoot?
  by_cases hdash : s.root = "-"
  · rw [if_pos hdash, if_pos hdash]
    rfl
  rw [if_neg hdash] at h ⊢
  rw [if_neg hdash]
  cases hresolve : s.disk.resolve s.disk.workingDirectory s.root with
  | error e => rfl
  | ok location =>
    have hdirectory : ¬ s.disk.isDirectory location := by simpa [hresolve] using h
    simp only [if_neg hdirectory]
    rfl

theorem mem_filterMap_id {entries : List (Option Entry)} {entry : Entry} :
    entry ∈ entries.filterMap id ↔ some entry ∈ entries := by
  simp

section Root

variable (hd : s.disk.IsProper) (overrides : List String)

include hd

theorem mem_entries (entry : Entry) :
    some entry ∈ entries s (Ignore.overrideRules overrides) ↔
      ∃ way, rules.entryAt? s way = some entry ∧
        rules.IsKept s overrides entry.kind [] way := by
  rw [← mem_filterMap_id]
  cases hstart : start? s with
  | none =>
    have hbelow : ∀ way, entryBelow? s way = none := by
      intro way
      unfold entryBelow? placeAt?
      rw [hstart]
      cases way.getLast? with
      | none => rfl
      | some name => rfl
    rw [entries_of_start?_none hstart, Option.mem_toList]
    constructor
    · intro hroot
      exact ⟨[], hroot, trivial⟩
    · rintro ⟨way, hway, -⟩
      by_cases hnil : way = []
      · simpa [rules, hnil] using hway
      · simp [rules, hnil, hbelow] at hway
  | some p =>
    have hp : placeAt? s [] = some p := by
      simp [placeAt?, hstart]
    have hbelow := listsBelow hd overrides (maxDepth s.disk) [] p hp entry
    rw [entries_of_start? hstart, List.mem_cons, mem_filterMap_id, hbelow]
    constructor
    · rintro (rfl | ⟨way, hne, hlength, hway, hkept⟩)
      · exact ⟨[], entryOfRoot?_of_start? hstart, trivial⟩
      · refine ⟨way, ?_, hkept⟩
        simpa [rules, hne, hlength] using hway
    · rintro ⟨way, hway, hkept⟩
      by_cases hnil : way = []
      · left
        simp only [rules, hnil, if_true, entryOfRoot?_of_start? hstart] at hway
        exact (Option.some.inj hway).symm
      · right
        simp only [rules, if_neg hnil] at hway
        split at hway
        case isFalse => nomatch hway
        case isTrue hlength => exact ⟨way, hnil, hlength, hway, hkept⟩

theorem nodup_entries :
    ((entries s (Ignore.overrideRules overrides)).filterMap id).Nodup := by
  apply List.Nodup.of_map fun entry => Path.components entry.path
  cases hstart : start? s with
  | none =>
    rw [entries_of_start?_none hstart]
    cases entryOfRoot? s with
    | none => apply List.nodup_nil
    | some entry => apply List.nodup_singleton
  | some p =>
    have hp : placeAt? s [] = some p := by
      simp [placeAt?, hstart]
    rw [entries_of_start? hstart, List.map_cons]
    exact List.nodup_cons.mpr
      ⟨components_not_mem_paths_below hd hp _, nodup_paths_below hd hp _⟩

end Root

theorem path_of_entryOfRoot? {entry : Entry} (h : entryOfRoot? s = some entry) :
    entry.path = s.root := by
  unfold entryOfRoot? at h
  split at h
  case isTrue =>
    cases h
    rfl
  case isFalse =>
    split at h
    case h_1 => nomatch h
    case h_2 =>
      split at h
      case isTrue =>
        cases h
        rfl
      case isFalse =>
        cases h
        rfl

/--
On a disk with proper names the walker obeys its rules.
-/
theorem walker_obeys (hd : s.disk.IsProper) : walker.Obeys rules s where
  mem_entries := mem_entries hd
  nodup := nodup_entries hd
  components_path := by
    intro way entry h
    by_cases hnil : way = []
    · subst hnil
      rw [path_of_entryOfRoot? h, List.map_nil, List.append_nil]
    · simp only [rules, if_neg hnil] at h
      split at h
      case isFalse => nomatch h
      case isTrue => exact components_of_entryBelow? hd h
  keeps_negated := Ignore.not_overrideKeeps_negated
  applies_name := by
    intro name _ hplain before isDirectory
    simp only [rules, List.foldl_append, List.foldl_cons, List.foldl_nil]
    exact Ignore.overrideApplies_of_isPlain (List.all_eq_true.mp hplain) _ isDirectory

/-! Files -/

theorem isRootFile_of_entryOfRoot? {entry : Entry} (h : entryOfRoot? s = some entry)
    (hkind : entry.kind = .file) : IsRootFile s.disk s.root := by
  unfold entryOfRoot? at h
  split at h
  case isTrue =>
    cases h
    nomatch hkind
  case isFalse hdash =>
    split at h
    case h_1 => nomatch h
    case h_2 location hresolve =>
      split at h
      case isTrue =>
        cases h
        nomatch hkind
      case isFalse hfile =>
        obtain ⟨item, hitem⟩ := Option.isSome_iff_exists.mp (Disk.locate_of_resolve hresolve).2
        refine ⟨hdash, item, Disk.itemAt_eq_ok_iff.mpr ⟨location, hresolve, hitem⟩, ?_⟩
        rintro rfl
        simp [Disk.isDirectory, hitem] at hfile

theorem entries_of_isRootFile (h : IsRootFile s.disk s.root) (overrides : List Ignore.Rule) :
    entries s overrides = [some ⟨s.root, .file, s.disk.ownSize? s.root⟩] := by
  obtain ⟨hdash, item, hitem, hdirectory⟩ := h
  obtain ⟨location, hresolve, hread⟩ := Disk.itemAt_eq_ok_iff.mp hitem
  unfold entries
  rw [if_neg hdash, hresolve]
  apply if_neg
  rw [Disk.isDirectory, hread]
  simpa using hdirectory

/--
A file that is found by the name of its entry is the one that its path names.
-/
theorem size_of_entryBelow? (hd : s.disk.IsProper) {way : List String} {entry : Entry}
    (h : entryBelow? s way = some entry) (hkind : entry.kind = .file) :
    ∃ size ≤ s.maxSize, entry.size = some size ∧
      ∀ item, s.disk.itemNamed entry.path = .ok item →
        ∃ content, item = .file content ∧ content.length = size := by
  obtain rfl | ⟨front, name, rfl⟩ := List.eq_nil_or_concat way
  · nomatch h
  rw [List.concat_eq_append, entryBelow?_concat, Option.bind_eq_some_iff] at h
  obtain ⟨p, hp, hentry⟩ := h
  have hname := hd.isName_of_mem_names (entryOf?_eq_some hentry).1
  have hreached := (isAt_of_placeAt? hd hp).isReached
  unfold entryOf? at hentry
  cases htarget : target s p name with
  | nothing =>
    rw [htarget] at hentry
    nomatch hentry
  | broken =>
    rw [htarget] at hentry
    nomatch hentry
  | directory location =>
    simp only [htarget] at hentry
    cases hentry
    nomatch hkind
  | leaf kind size =>
    simp only [htarget] at hentry
    split at hentry
    case isTrue => nomatch hentry
    case isFalse hsize =>
      cases hentry
      obtain rfl : kind = .file := hkind
      refine ⟨size, Nat.not_lt.mp hsize, rfl, ?_⟩
      intro item hitem
      obtain ⟨location, content, hleads, hcontent, hlength⟩ := leads_of_target_file hname htarget
      obtain ⟨place, hplace, hread⟩ := Disk.leads_of_itemAt hitem
      -- The walk along the whole path and the search end at the same place.
      have hsame : place = location := hplace.unique (hreached.leads_join hname hleads)
      rw [hsame, hcontent] at hread
      exact ⟨content, (Option.some.inj hread).symm, hlength⟩

/--
On a disk with proper names the walker lists files as it should.
-/
theorem walker_listsFiles (hd : s.disk.IsProper) : walker.ListsFiles s where
  pairwise := (walker_obeys hd).pairwise_entries
  root h overrides := entries_of_isRootFile h _
  below := by
    intro hroot overrides entry hentry hkind
    obtain ⟨way, hway, -⟩ := (mem_entries hd overrides entry).mp hentry
    by_cases hnil : way = []
    · subst hnil
      exact absurd (isRootFile_of_entryOfRoot? hway hkind) hroot
    · simp only [rules, if_neg hnil] at hway
      split at hway
      case isFalse => nomatch hway
      case isTrue => exact size_of_entryBelow? hd hway hkind

end Walk

end Polyglot
