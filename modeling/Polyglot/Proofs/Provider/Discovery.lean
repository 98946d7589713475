import Polyglot.Proofs.Provider.Accounting
import Polyglot.Proofs.Walk

/-!
This module contains how the search for files and the processing of each of them fit together, for
every walker that lists files as it should. A file that is found below a directory passes the checks
that are made once more before it is read, so it has a record or a failure. The one file that can be
found and then left out is a root that is a file itself.
-/

namespace Polyglot

/--
Every record is kept under the path of its file.
-/
def Cache.IsFiled (c : Cache) : Prop :=
  ∀ key record, c.find? key = some record → Path.components record.file = key.path

theorem Cache.IsFiled.insert {c : Cache} (hc : c.IsFiled) {key : Key} {record : FileRecord}
    (hrecord : Path.components record.file = key.path) : (c.insert key record).IsFiled := by
  intro other found hfind
  rw [find?_insert] at hfind
  split at hfind
  case isFalse => apply hc other found hfind
  case isTrue h =>
    cases hfind
    rw [hrecord, h.2]

theorem Cache.IsFiled.of_sound {t : Toolchain} {p : Provider} {known : List (String × String)}
    {c : Cache} (h : Provider.Request.Sound t p known c) : c.IsFiled := by
  intro key record hfind
  obtain ⟨path, source, -, rfl, hanalyze⟩ := h key record hfind
  rw [(Provider.file_and_contentHash_of_analyze t p hanalyze).1]
  rfl

/--
The result for a file that is not left out: a record of it, or a failure.
-/
def FileRecord.Answers (path : String) : Except FileError FileRecord → Prop
  | .ok record => Path.components record.file = Path.components path
  | .error e => e.isSkip = false

/-! Projects -/

namespace ProjectRecord

/--
The paths of the files that a project has a record or a failure of.
-/
def paths (record : ProjectRecord) : List (List Component) :=
  record.files.map (fun file => Path.components file.file) ++
    record.failures.map fun failure => Path.components failure.file

theorem paths_add {path : String} {result : Except FileError FileRecord}
    (h : FileRecord.Answers path result) (record : ProjectRecord) :
    (record.add path result).stats.filesSkipped = record.stats.filesSkipped ∧
      (record.add path result).paths.Perm (record.paths ++ [Path.components path]) := by
  cases result with
  | ok file =>
    refine ⟨rfl, ?_⟩
    have hfile : Path.components file.file = Path.components path := h
    simp only [add, paths, List.map_append, List.map_cons, List.map_nil, hfile, List.append_assoc]
    apply List.Perm.append_left
    apply List.perm_append_comm
  | error e =>
    have hskip : ¬ e.isSkip := by
      simpa [FileRecord.Answers] using h
    simp only [add, if_neg hskip, true_and]
    simp only [paths, List.map_append, List.map_cons, List.map_nil, List.append_assoc]
    apply List.Perm.refl

theorem paths_addAll {results : List (String × Except FileError FileRecord)}
    (h : ∀ result ∈ results, FileRecord.Answers result.1 result.2) (record : ProjectRecord) :
    (record.addAll results).stats.filesSkipped = record.stats.filesSkipped ∧
      (record.addAll results).paths.Perm
        (record.paths ++ results.map fun result => Path.components result.1) := by
  induction results generalizing record with
  | nil =>
    rw [List.map_nil, List.append_nil]
    exact ⟨rfl, .refl _⟩
  | cons result results ih =>
    obtain ⟨hfirst, hrest⟩ := List.forall_mem_cons.mp h
    obtain ⟨hskipped, hpaths⟩ := paths_add hfirst record
    obtain ⟨hskipped', hpaths'⟩ := ih hrest (record.add result.1 result.2)
    refine ⟨hskipped'.trans hskipped, ?_⟩
    apply hpaths'.trans
    rw [List.map_cons, List.append_cons]
    apply hpaths.append_right

theorem paths_sort (record : ProjectRecord) : record.sort.paths.Perm record.paths := by
  apply List.Perm.append
  · apply List.Perm.map
    apply List.mergeSort_perm
  · apply List.Perm.map
    apply List.mergeSort_perm

theorem paths_ofResults {results : List (String × Except FileError FileRecord)}
    (h : ∀ result ∈ results, FileRecord.Answers result.1 result.2) :
    (ofResults results).stats.filesSkipped = 0 ∧
      (ofResults results).paths.Perm (results.map fun result => Path.components result.1) := by
  obtain ⟨hskipped, hpaths⟩ := paths_addAll h {}
  rw [ofResults_eq]
  exact ⟨hskipped, (paths_sort _).trans hpaths⟩

theorem paths_ofResults_skip {e : FileError} (h : e.isSkip) (path : String) :
    (ofResults [(path, .error e)]).stats.filesSkipped = 1 ∧
      (ofResults [(path, .error e)]).paths = [] := by
  rw [ofResults_eq]
  simp [addAll, add, h, sort, paths]

end ProjectRecord

namespace Provider

variable {t : Toolchain} {p : Provider} {disk : Disk}

/-! Processing a file -/

theorem answers_normalizeSource {path : String} {language : Language}
    (hlanguage : p.detectLanguage path = .ok language) (source : String) {s : Session}
    (hs : s.cache.IsFiled) :
    FileRecord.Answers path ((p.normalizeSource t path source).run s).1 ∧
      ((p.normalizeSource t path source).run s).2.cache.IsFiled := by
  cases hfind : s.cache.find? (keyOf t path source) with
  | some record =>
    rw [run_normalizeSource_of_find? hfind]
    exact ⟨hs _ _ hfind, hs⟩
  | none =>
    cases hanalyze : p.analyze t path source with
    | error e =>
      have hread : ¬ p.IsUnread path := by
        rw [isUnread_iff]
        exact fun hunread => hunread language hlanguage
      have hskip : e.isSkip = false := by
        rwa [← isSkip_iff_of_analyze hanalyze, Bool.not_eq_true] at hread
      rw [run_normalizeSource_of_error hfind hanalyze]
      exact ⟨hskip, hs⟩
    | ok record =>
      obtain ⟨hanswer, hcache⟩ := run_normalizeSource_of_ok hfind hanalyze
      have hfile : Path.components record.file = Path.components path := by
        rw [(file_and_contentHash_of_analyze t p hanalyze).1]
      rw [hanswer, hcache]
      exact ⟨hfile, hs.insert hfile⟩

/--
Once the language is known, the size decides whether a file is left out.
-/
theorem readSource_eq {path : String} {language : Language}
    (h : p.detectLanguage path = .ok language) :
    p.readSource disk path =
      match disk.itemNamed path with
      | .error cause => .error (.unreadable path cause)
      | .ok item =>
        if p.settings.provider.effectiveMaxFileSize < item.size then
          .error (.tooLarge path item.size p.settings.provider.effectiveMaxFileSize)
        else (disk.readText path).mapError (.unreadable path) := by
  simp only [readSource, h]
  cases disk.itemNamed path with
  | error cause => rfl
  | ok item =>
    simp only [bind, Except.bind, Except.mapError]
    split
    case isTrue => rfl
    case isFalse => rfl

/--
A file passes the checks that are made before it is read.
-/
structure Passes (p : Provider) (disk : Disk) (path : String) : Prop where
  language : ∃ language, p.detectLanguage path = .ok language
  size_le : ∀ item, disk.itemNamed path = .ok item →
    item.size ≤ p.settings.provider.effectiveMaxFileSize

theorem Passes.isSkip_of_readSource {path : String} (hpath : p.Passes disk path) {e : FileError}
    (h : p.readSource disk path = .error e) : e.isSkip = false := by
  obtain ⟨language, hlanguage⟩ := hpath.language
  rw [readSource_eq hlanguage] at h
  cases hitem : disk.itemNamed path with
  | error cause =>
    rw [hitem] at h
    cases h
    rfl
  | ok item =>
    rw [hitem] at h
    simp only [if_neg (Nat.not_lt.mpr (hpath.size_le item hitem))] at h
    cases hread : disk.readText path with
    | error cause =>
      rw [hread] at h
      cases h
      rfl
    | ok text =>
      rw [hread] at h
      nomatch h

theorem Passes.answers_normalizeFile {path : String} (hpath : p.Passes disk path) {s : Session}
    (hs : s.cache.IsFiled) :
    FileRecord.Answers path ((p.normalizeFile t disk path).run s).1 ∧
      ((p.normalizeFile t disk path).run s).2.cache.IsFiled := by
  unfold normalizeFile
  cases hread : p.readSource disk path with
  | error e => exact ⟨hpath.isSkip_of_readSource hread, hs⟩
  | ok source =>
    obtain ⟨language, hlanguage⟩ := hpath.language
    apply answers_normalizeSource hlanguage source hs

theorem normalizeFile_of_tooLarge {path : String} {language : Language} {item : Disk.Item}
    (hlanguage : p.detectLanguage path = .ok language) (hitem : disk.itemNamed path = .ok item)
    (hsize : p.settings.provider.effectiveMaxFileSize < item.size) (s : Session) :
    ((p.normalizeFile t disk path).run s).1 =
      .error (.tooLarge path item.size p.settings.provider.effectiveMaxFileSize) := by
  have hread : p.readSource disk path =
      .error (.tooLarge path item.size p.settings.provider.effectiveMaxFileSize) := by
    rw [readSource_eq hlanguage, hitem]
    apply if_pos hsize
  unfold normalizeFile
  rw [hread]
  rfl

/-! Processing the files that are found -/

variable (t p disk) in
def answerFiles (files : List FoundFile) :
    SessionM (List (String × Except FileError FileRecord)) :=
  files.mapM fun file => do
    return (file.path, ← p.normalizeFile t disk file.path)

theorem run_answerFiles_cons (file : FoundFile) (files : List FoundFile) (s : Session) :
    let answer := (p.normalizeFile t disk file.path).run s
    let rest := (answerFiles t p disk files).run answer.2
    (answerFiles t p disk (file :: files)).run s = ((file.path, answer.1) :: rest.1, rest.2) := by
  intro answer rest
  unfold answerFiles
  rw [List.mapM_cons, StateT.run_bind]
  rfl

theorem answers_answerFiles {files : List FoundFile}
    (hfiles : ∀ file ∈ files, p.Passes disk file.path) {s : Session} (hs : s.cache.IsFiled) :
    let results := ((answerFiles t p disk files).run s).1
    results.map (·.1) = files.map (·.path) ∧
      ∀ result ∈ results, FileRecord.Answers result.1 result.2 := by
  induction files generalizing s with
  | nil => exact ⟨rfl, nofun⟩
  | cons file files ih =>
    obtain ⟨hfile, hfiles⟩ := List.forall_mem_cons.mp hfiles
    obtain ⟨hanswer, hcache⟩ := hfile.answers_normalizeFile (t := t) hs
    obtain ⟨hpaths, hanswers⟩ := ih hfiles hcache
    simp only [run_answerFiles_cons, List.map_cons]
    constructor
    · rw [hpaths]
    · exact List.forall_mem_cons.mpr ⟨hanswer, hanswers⟩

/-! The files of a root -/

theorem foundFile?_eq_some {entry : Entry} {file : FoundFile} :
    p.foundFile? entry = some file ↔ entry.kind = .file ∧ file.path = entry.path ∧
      file.size = entry.size.getD 0 ∧ p.detectLanguage entry.path = .ok file.language := by
  unfold foundFile?
  by_cases hkind : entry.kind = .file
  case neg => simp [hkind]
  cases hlanguage : p.detectLanguage entry.path with
  | error e => simp [hkind, Except.toOption]
  | ok language =>
    cases file
    simp [hkind, Except.toOption, eq_comm]

theorem mem_filesAmong {entries : List (Option Entry)} {file : FoundFile} :
    file ∈ p.filesAmong entries ↔
      ∃ entry, some entry ∈ entries ∧ p.foundFile? entry = some file := by
  unfold filesAmong
  rw [List.mem_mergeSort]
  simp

theorem filesAmong_perm (entries : List (Option Entry)) :
    (p.filesAmong entries).Perm ((entries.filterMap id).filterMap p.foundFile?) := by
  apply List.mergeSort_perm

theorem nodup_filesAmong {entries : List (Option Entry)}
    (h : (entries.filterMap id).Pairwise fun a b =>
      Path.components a.path ≠ Path.components b.path) :
    ((p.filesAmong entries).map fun file => Path.components file.path).Nodup := by
  rw [((filesAmong_perm entries).map _).nodup_iff, List.Nodup, List.pairwise_map,
    List.pairwise_filterMap]
  apply h.imp
  intro a b hab file hfile other hother
  rwa [(foundFile?_eq_some.mp hfile).2.1, (foundFile?_eq_some.mp hother).2.1]

theorem cache_warnAll (entries : List (Option Entry)) (s : Session) :
    ((forIn entries PUnit.unit fun entry _ => do
      if entry.isNone then SessionM.warn .walkFailed
      return .yield PUnit.unit : SessionM PUnit).run s).2.cache = s.cache := by
  induction entries generalizing s with
  | nil => rfl
  | cons entry entries ih =>
    rw [List.forIn_cons]
    cases entry with
    | none => apply ih
    | some entry => apply ih

section Found

variable {w : Walker} {overrides : List String}
  (hoverrides : w.overrides p.settings.provider.extraIgnore = .ok overrides)

include hoverrides

theorem run_discover (disk : Disk) (root : String) (s : Session) :
    ∃ s', s'.cache = s.cache ∧ (p.discover w disk root).run s =
      (.ok (p.filesAmong (w.entries (p.search disk root) overrides)), s') := by
  unfold discover
  rw [hoverrides]
  exact ⟨_, cache_warnAll _ s, rfl⟩

theorem run_normalizeDirectory (t : Toolchain) (disk : Disk) (root : String) (s : Session) :
    ∃ s', s'.cache = s.cache ∧ ((p.normalizeDirectory t w disk root).run s).1 =
      .ok (.ofResults ((answerFiles t p disk
        (p.filesAmong (w.entries (p.search disk root) overrides))).run s').1) := by
  obtain ⟨s', hcache, hdiscover⟩ := run_discover hoverrides disk root s
  refine ⟨s', hcache, ?_⟩
  unfold normalizeDirectory
  rw [StateT.run_bind, hdiscover]
  let results :=
    (answerFiles t p disk (p.filesAmong (w.entries (p.search disk root) overrides))).run s'
  exact congrArg Except.ok (Workers.run_collect results.1 results.2)

end Found

theorem discover_eq_ok {w : Walker} {root : String} {s : Session} {files : List FoundFile}
    (h : ((p.discover w disk root).run s).1 = .ok files) :
    ∃ overrides, w.overrides p.settings.provider.extraIgnore = .ok overrides ∧
      p.filesAmong (w.entries (p.search disk root) overrides) = files := by
  cases hoverrides : w.overrides p.settings.provider.extraIgnore with
  | ok overrides =>
    obtain ⟨_, _, hdiscover⟩ := run_discover hoverrides disk root s
    rw [hdiscover] at h
    exact ⟨overrides, rfl, Except.ok.inj h⟩
  | error e =>
    unfold discover at h
    rw [hoverrides] at h
    nomatch h

theorem overrides_of_normalizeDirectory {w : Walker} {root : String} {s : Session}
    {record : ProjectRecord} (h : ((p.normalizeDirectory t w disk root).run s).1 = .ok record) :
    ∃ overrides, w.overrides p.settings.provider.extraIgnore = .ok overrides := by
  cases hoverrides : w.overrides p.settings.provider.extraIgnore with
  | ok overrides => exact ⟨overrides, rfl⟩
  | error e =>
    unfold normalizeDirectory discover at h
    rw [hoverrides] at h
    nomatch h

/--
Whether a root is a file that some language reads and that is larger than a file may be.
-/
def IsRootTooLarge (p : Provider) (disk : Disk) (root : String) : Prop :=
  root ≠ "-" ∧ (∃ language, p.detectLanguage root = .ok language) ∧
    ∃ item, disk.itemNamed root = .ok item ∧ item ≠ .directory ∧
      p.settings.provider.effectiveMaxFileSize < item.size

/--
Whether a root names what it is, and no link to it.
-/
def IsOwnRoot (disk : Disk) (root : String) : Prop :=
  disk.locate false disk.workingDirectory root = disk.locate true disk.workingDirectory root

theorem ownSize?_of_isOwnRoot {root : String} (hroot : IsOwnRoot disk root) {item : Disk.Item}
    (hitem : disk.itemNamed root = .ok item) : disk.ownSize? root = some item.size := by
  obtain ⟨location, hresolve, hread⟩ := Disk.itemAt_eq_ok_iff.mp hitem
  unfold Disk.ownSize?
  rw [hroot, (Disk.locate_of_resolve hresolve).1]
  dsimp only
  rw [hread, Option.map_some]

section Files

variable {w : Walker} {root : String} (hw : w.ListsFiles (p.search disk root))
  {overrides : List String}

include hw

theorem files_of_isRootFile (hroot : IsRootFile disk root) {language : Language}
    (hlanguage : p.detectLanguage root = .ok language) :
    p.filesAmong (w.entries (p.search disk root) overrides) =
      [⟨root, (disk.ownSize? root).getD 0, language⟩] := by
  rw [hw.root hroot]
  simp [filesAmong, foundFile?, search, hlanguage, Except.toOption]

theorem size_of_mem_files_below (hroot : ¬ IsRootFile disk root) {file : FoundFile}
    (hfile : file ∈ p.filesAmong (w.entries (p.search disk root) overrides)) :
    file.size ≤ p.settings.provider.effectiveMaxFileSize ∧
      ∀ item, disk.itemNamed file.path = .ok item → item.size = file.size := by
  obtain ⟨entry, hentry, hfound⟩ := mem_filesAmong.mp hfile
  obtain ⟨hkind, hpath, hsize, -⟩ := foundFile?_eq_some.mp hfound
  obtain ⟨size, hle, hsome, hitem⟩ := hw.below hroot overrides entry hentry hkind
  rw [hsome, Option.getD_some] at hsize
  rw [hpath, hsize]
  refine ⟨hle, ?_⟩
  intro item hread
  obtain ⟨content, rfl, hlength⟩ := hitem item hread
  exact hlength

omit hw in
theorem detectLanguage_of_mem_files {entries : List (Option Entry)} {file : FoundFile}
    (hfile : file ∈ p.filesAmong entries) : p.detectLanguage file.path = .ok file.language := by
  obtain ⟨entry, -, hfound⟩ := mem_filesAmong.mp hfile
  obtain ⟨-, hpath, -, hlanguage⟩ := foundFile?_eq_some.mp hfound
  rwa [hpath]

theorem path_of_isRootFile (hroot : IsRootFile disk root) {file : FoundFile}
    (hfile : file ∈ p.filesAmong (w.entries (p.search disk root) overrides)) :
    file.path = root ∧ file.size = (disk.ownSize? root).getD 0 := by
  obtain ⟨entry, hentry, hfound⟩ := mem_filesAmong.mp hfile
  rw [hw.root hroot, List.mem_singleton] at hentry
  cases hentry
  obtain ⟨-, hpath, hsize, -⟩ := foundFile?_eq_some.mp hfound
  exact ⟨hpath, hsize⟩

theorem passes_of_mem_files (hsize : ¬ p.IsRootTooLarge disk root) {file : FoundFile}
    (hfile : file ∈ p.filesAmong (w.entries (p.search disk root) overrides)) :
    p.Passes disk file.path := by
  have hlanguage := detectLanguage_of_mem_files hfile
  refine ⟨⟨file.language, hlanguage⟩, ?_⟩
  intro item hitem
  by_cases hroot : IsRootFile disk root
  case neg =>
    obtain ⟨hle, heq⟩ := size_of_mem_files_below hw hroot hfile
    rwa [heq item hitem]
  rw [(path_of_isRootFile hw hroot hfile).1] at hitem hlanguage
  obtain ⟨hdash, other, hother, hdirectory⟩ := hroot
  rw [hother] at hitem
  cases hitem
  by_contra hlarge
  exact hsize ⟨hdash, ⟨_, hlanguage⟩, item, hother, hdirectory, Nat.lt_of_not_le hlarge⟩

theorem size_of_mem_files (hsize : ¬ p.IsRootTooLarge disk root)
    (hown : IsRootFile disk root → IsOwnRoot disk root) {file : FoundFile}
    (hfile : file ∈ p.filesAmong (w.entries (p.search disk root) overrides)) :
    file.size ≤ p.settings.provider.effectiveMaxFileSize ∧
      ∀ item, disk.itemNamed file.path = .ok item → item.size = file.size := by
  by_cases hroot : IsRootFile disk root
  case neg => exact size_of_mem_files_below hw hroot hfile
  obtain ⟨hpath, hfileSize⟩ := path_of_isRootFile hw hroot hfile
  have hown := hown hroot
  obtain ⟨-, item, hitem, -⟩ := hroot
  rw [ownSize?_of_isOwnRoot hown hitem, Option.getD_some] at hfileSize
  rw [← hpath] at hitem
  constructor
  · rw [hfileSize]
    exact (passes_of_mem_files hw hsize hfile).size_le item hitem
  · intro other hother
    rw [hitem] at hother
    cases hother
    exact hfileSize.symm

end Files

/--
The files that a search finds have different paths and enabled languages. None of them is too large,
so each has one record or one failure and no file is left out, unless the root is a file itself: it
is found whatever its size, and left out if it is too large. A link as root is found with the size
of the link.
-/
theorem found_files_accounted_for (t : Toolchain) (w : Walker) (p : Provider) (disk : Disk)
    (root : String) (hw : w.ListsFiles (p.search disk root)) (before : List Operation)
    {s : Session} (hs : s.cache = Operation.applyAll t p before p.emptyCache)
    {record : ProjectRecord} (h : ((p.normalizeDirectory t w disk root).run s).1 = .ok record) :
    ∃ files, ((p.discover w disk root).run s).1 = .ok files ∧
      (files.map fun file => Path.components file.path).Nodup ∧
      (∀ file ∈ files, p.detectLanguage file.path = .ok file.language) ∧
      (¬ p.IsRootTooLarge disk root → (IsRootFile disk root → IsOwnRoot disk root) →
        ∀ file ∈ files, file.size ≤ p.settings.provider.effectiveMaxFileSize ∧
          ∀ item, disk.itemNamed file.path = .ok item → item.size = file.size) ∧
      (¬ p.IsRootTooLarge disk root → record.stats.filesSkipped = 0 ∧
        record.paths.Perm (files.map fun file => Path.components file.path)) ∧
      (p.IsRootTooLarge disk root → files.map (·.path) = [root] ∧
        record.stats.filesSkipped = 1 ∧ record.paths = []) := by
  obtain ⟨overrides, hoverrides⟩ := overrides_of_normalizeDirectory h
  obtain ⟨s', hcache, hrecord⟩ := run_normalizeDirectory hoverrides t disk root s
  obtain ⟨_, _, hdiscover⟩ := run_discover hoverrides disk root s
  rw [h] at hrecord
  obtain rfl := Except.ok.inj hrecord
  have hfiled : s'.cache.IsFiled := by
    rw [hcache, hs]
    exact .of_sound (Operation.sound_reached t p before)
  refine ⟨_, congrArg Prod.fst hdiscover, nodup_filesAmong (hw.pairwise overrides), ?_, ?_, ?_, ?_⟩
  · intro file hfile
    exact detectLanguage_of_mem_files hfile
  · intro hsize hown file hfile
    exact size_of_mem_files hw hsize hown hfile
  · intro hsize
    obtain ⟨hpaths, hanswers⟩ :=
      answers_answerFiles (t := t) (fun file => passes_of_mem_files hw hsize) hfiled
    obtain ⟨hskipped, hperm⟩ := ProjectRecord.paths_ofResults hanswers
    have hcomponents := congrArg (List.map Path.components) hpaths
    rw [List.map_map, List.map_map] at hcomponents
    exact ⟨hskipped, hperm.trans (.of_eq hcomponents)⟩
  · rintro ⟨hdash, ⟨language, hlanguage⟩, item, hitem, hdirectory, hsize⟩
    have hanswer := normalizeFile_of_tooLarge (t := t) hlanguage hitem hsize s'
    rw [files_of_isRootFile hw ⟨hdash, item, hitem, hdirectory⟩ hlanguage, run_answerFiles_cons]
    simp only [hanswer]
    exact ⟨rfl, ProjectRecord.paths_ofResults_skip rfl root⟩

theorem eq_ok_of_toOption {x : Except ε α} {a : α} (h : x.toOption = some a) : x = .ok a := by
  cases x with
  | error e => nomatch h
  | ok b =>
    cases h
    rfl

/--
The files among what was come across if they are in order already.
-/
theorem filesAmong_eq {entries : List (Option Entry)} {files : List FoundFile}
    (h : (entries.filterMap id).filterMap p.foundFile? = files)
    (hsorted : files.Pairwise fun a b => Path.compare a.path b.path != .gt) :
    p.filesAmong entries = files := by
  unfold filesAmong
  rw [h, List.mergeSort_of_pairwise hsorted]

theorem linked_files_accounted_for :
    let t := lengthToolchain
    let p : Provider :=
      ⟨{ provider := { maxFileSize := some 4, followSymlinks := some true } }, Language.all⟩
    let disk := (((({} : Disk).write "/p/a.py" [120, 61, 49, 10]).write "/q/b.py"
      [120, 61, 49, 48, 10]).write "/q/c.py" [255]).makeLink "/p/q" "/q"
    let s : Session := { cache := p.emptyCache }
    Walk.walker.ListsFiles (p.search disk "/p") ∧ ∃ record files,
      ((p.normalizeDirectory t Walk.walker disk "/p").run s).1 = .ok record ∧
        ((p.discover Walk.walker disk "/p").run s).1 = .ok files ∧
        files.map (·.path) = ["/p/a.py", "/p/q/c.py"] ∧ record.stats.filesSkipped = 0 ∧
        record.paths.Perm (files.map fun file => Path.components file.path) := by
  intro t p disk s
  have hdisk : disk.IsProper :=
    (((Disk.isProper_empty.write _ _).write _ _).write _ _).makeLink _ _
  have hw : Walk.walker.ListsFiles (p.search disk "/p") := Walk.walker_listsFiles hdisk
  have hroot : ¬ p.IsRootTooLarge disk "/p" := by
    rintro ⟨-, -, item, hitem, hdirectory, -⟩
    have hread : disk.itemNamed "/p" = .ok .directory := by
      decide +kernel
    rw [hread] at hitem
    exact hdirectory (Except.ok.inj hitem).symm
  have hoverrides : Walk.walker.overrides p.settings.provider.extraIgnore =
      .ok ((exclusions []).map (·.2)) := by
    apply eq_ok_of_toOption
    decide +kernel
  have hfound :
      p.filesAmong (Walk.walker.entries (p.search disk "/p") ((exclusions []).map (·.2))) =
        [⟨"/p/a.py", 4, .python⟩, ⟨"/p/q/c.py", 1, .python⟩] := by
    apply filesAmong_eq
    · decide +kernel
    · decide +kernel
  obtain ⟨_, _, hrecord⟩ := run_normalizeDirectory hoverrides t disk "/p" s
  obtain ⟨_, _, hdiscover⟩ := run_discover hoverrides disk "/p" s
  obtain ⟨files, hfiles, -, -, -, hkept, -⟩ :=
    found_files_accounted_for t Walk.walker p disk "/p" hw [] rfl hrecord
  refine ⟨hw, _, files, hrecord, hfiles, ?_, hkept hroot⟩
  rw [hdiscover, hfound] at hfiles
  rw [← Except.ok.inj hfiles]
  rfl

/--
A root that is a file is found although it is too large, and then left out.
-/
theorem large_root_left_out :
    let t := lengthToolchain
    let p : Provider := ⟨{ provider := { maxFileSize := some 4 } }, Language.all⟩
    let disk := ({} : Disk).write "a.py" [120, 61, 49, 48, 10]
    let s : Session := { cache := p.emptyCache }
    ((p.discover Walk.walker disk "a.py").run s).1.toOption = some [⟨"a.py", 5, .python⟩] ∧
      ((p.normalizeDirectory t Walk.walker disk "a.py").run s).1.toOption.map
        (fun record => (record.stats.filesSkipped, record.paths)) = some (1, []) := by
  decide +kernel

end Provider

end Polyglot
