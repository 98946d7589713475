import Polyglot.Project.Aggregate
import Polyglot.Proofs.Respelling

/-!
This module contains what the cache is to a single call for a record: the call looks into the cache,
and on a miss it analyzes the text and stores the record. Between these two steps others may use the
cache. A record that comes from the analysis of another text is the call's own record under another
spelling of its path, as long as the hash tells the texts apart.
-/

namespace Polyglot

/--
The same record of a file with the given name.
-/
def FileRecord.inFile (file : String) (record : FileRecord) : FileRecord :=
  { record with toContents := record.toContents.inFile file, file }

namespace Cache

variable (c : Cache)

theorem find?_erase (key other : Key) :
    (c.erase key).find? other = if key = other then none else c.find? other := by
  unfold find? erase
  rw [List.find?_filter]
  split
  case isTrue h =>
    rw [Option.map_eq_none_iff, List.find?_eq_none]
    intro entry _
    simp [h]
  case isFalse h =>
    congr 2
    funext entry
    by_cases hentry : entry.1 = other
    · simp [hentry, Ne.symm h]
    · simp [hentry]

theorem find?_insert (key other : Key) (record : FileRecord) :
    (c.insert key record).find? other =
      if c.isEnabled ∧ key = other then some record else c.find? other := by
  unfold insert
  by_cases henabled : c.isEnabled
  case neg => simp only [henabled, Bool.false_eq_true, false_and, if_false]
  rw [if_pos henabled]
  by_cases hkey : key = other
  · rw [if_pos ⟨henabled, hkey⟩]
    simp [find?, hkey]
  · have herase := c.find?_erase key other
    rw [if_neg hkey] at herase
    rw [if_neg (fun h => hkey h.2), ← herase]
    simp [find?, hkey]

theorem isEnabled_insert (key : Key) (record : FileRecord) :
    (c.insert key record).isEnabled = c.isEnabled := by
  unfold insert
  split
  case isTrue => rfl
  case isFalse => rfl

/--
A cache that has lost entries.
-/
structure ShrinksTo (c d : Cache) : Prop where
  isEnabled_eq : d.isEnabled = c.isEnabled
  find?_of_find? : ∀ key record, d.find? key = some record → c.find? key = some record

theorem ShrinksTo.refl : c.ShrinksTo c := ⟨rfl, fun _ _ h => h⟩

theorem shrinksTo_erase (key : Key) : c.ShrinksTo (c.erase key) := by
  constructor
  · rfl
  · intro other record h
    rw [find?_erase] at h
    split at h
    case isTrue => nomatch h
    case isFalse => exact h

theorem shrinksTo_clear : c.ShrinksTo c.clear := ⟨rfl, nofun⟩

/--
The cache without its entries under the given keys.
-/
def evict (keys : List Key) : Cache := keys.foldl erase c

theorem shrinksTo_evict (keys : List Key) : c.ShrinksTo (c.evict keys) := by
  induction keys generalizing c with
  | nil => apply ShrinksTo.refl
  | cons key keys ih =>
    have hfirst := c.shrinksTo_erase key
    have hrest := ih (c.erase key)
    constructor
    · exact hrest.isEnabled_eq.trans hfirst.isEnabled_eq
    · intro other record h
      apply hfirst.find?_of_find?
      apply hrest.find?_of_find?
      exact h

end Cache

/--
Whether the hash tells the contents of the given files apart.
-/
def Toolchain.Separates (t : Toolchain) (files : List (String × String)) : Prop :=
  ∀ a ∈ files, ∀ b ∈ files, t.digest a.2 = t.digest b.2 → a.2 = b.2

instance (t : Toolchain) (files : List (String × String)) : Decidable (t.Separates files) :=
  inferInstanceAs (Decidable (∀ a ∈ files, ∀ b ∈ files, t.digest a.2 = t.digest b.2 → a.2 = b.2))

namespace Provider

variable (t : Toolchain) (p : Provider)

section Analysis

variable {path other : String} (hpath : Path.components path = Path.components other)

include hpath

theorem extension?_congr : Path.extension? path = Path.extension? other := by
  unfold Path.extension? Path.fileName?
  rw [hpath]

theorem detectLanguage_congr : p.detectLanguage path = p.detectLanguage other := by
  unfold detectLanguage Language.ofPath?
  rw [extension?_congr hpath]

theorem parse_eq_ok_congr {language : Language} {source : String} {tree : Tree}
    (h : t.parse language other source = .ok tree) : t.parse language path source = .ok tree := by
  have hdialect : Dialect.ofPath language path = Dialect.ofPath language other := by
    unfold Dialect.ofPath
    rw [extension?_congr hpath]
  unfold Toolchain.parse at h ⊢
  rw [hdialect]
  -- Only the text of an error shows the path.
  dsimp only at h ⊢
  split at h
  case isFalse => nomatch h
  case isTrue hgrammar =>
    rw [if_pos hgrammar]
    split at h
    case h_1 => exact h
    case h_2 => nomatch h

end Analysis

/--
The record of a source text that was parsed.
-/
def recordOf (path source : String) (language : Language) (tree : Tree) : FileRecord :=
  let root := Node.root (.ofString source) tree
  let facts := Facts.ofTree language ⟨path, p.settings.normalizer.toLimits⟩ root
  { facts.toContents with
    file := path, language, contentHash := t.digest source,
    fallbacks := facts.fallbacks.counters, hasParseErrors := root.hasError }

theorem analyze_eq_ok_iff {path source : String} {record : FileRecord} :
    p.analyze t path source = .ok record ↔ ∃ language tree,
      p.detectLanguage path = .ok language ∧ t.parse language path source = .ok tree ∧
        recordOf t p path source language tree = record := by
  unfold analyze
  cases p.detectLanguage path with
  | error e => simp [bind, Except.bind]
  | ok language =>
    cases hparse : t.parse language path source with
    | error e => simp [bind, Except.bind, hparse]
    | ok tree => simp [bind, Except.bind, pure, Except.pure, hparse, recordOf]

theorem recordOf_inFile (path other source : String) (language : Language) (tree : Tree) :
    (recordOf t p other source language tree).inFile path =
      recordOf t p path source language tree := by
  have hfacts := Facts.ofTree_inFile language path ⟨other, p.settings.normalizer.toLimits⟩
    (Node.root (.ofString source) tree)
  simp only [Scope.inFile] at hfacts
  simp only [recordOf, hfacts]
  rfl

/--
The spelling of a path shows in the record, and nothing else of it depends on it.
-/
theorem analyze_eq_ok_congr {path other source : String} {record : FileRecord}
    (hpath : Path.components path = Path.components other)
    (h : p.analyze t other source = .ok record) :
    p.analyze t path source = .ok (record.inFile path) := by
  obtain ⟨language, tree, hlanguage, htree, rfl⟩ := (analyze_eq_ok_iff t p).mp h
  rw [analyze_eq_ok_iff]
  refine ⟨language, tree, ?_, parse_eq_ok_congr t hpath htree, ?_⟩
  · rwa [detectLanguage_congr p hpath]
  · exact (recordOf_inFile t p path other source language tree).symm

theorem file_and_contentHash_of_analyze {path source : String} {record : FileRecord}
    (h : p.analyze t path source = .ok record) :
    record.file = path ∧ record.contentHash = t.digest source := by
  obtain ⟨language, tree, -, -, rfl⟩ := (analyze_eq_ok_iff t p).mp h
  exact ⟨rfl, rfl⟩

def keyOf (path source : String) : Cache.Key := .ofPath path (t.digest source)

/--
The record that the analysis of one of the given files gives, under the key of that file.
-/
def StemsFrom (files : List (String × String)) (key : Cache.Key) (record : FileRecord) : Prop :=
  ∃ path source, (path, source) ∈ files ∧ key = keyOf t path source ∧
    p.analyze t path source = .ok record

variable {t p}

theorem StemsFrom.mono {files more : List (String × String)} {key : Cache.Key}
    {record : FileRecord} (hfiles : files ⊆ more) (h : StemsFrom t p files key record) :
    StemsFrom t p more key record := by
  obtain ⟨path, source, hmem, hkey, hanalyze⟩ := h
  exact ⟨path, source, hfiles hmem, hkey, hanalyze⟩

/--
A record under a file's key is the file's own record under another spelling of its path.
-/
theorem StemsFrom.exists_spelling {files : List (String × String)} {path source : String}
    {record : FileRecord} (hseparates : t.Separates files) (hmem : (path, source) ∈ files)
    (h : StemsFrom t p files (keyOf t path source) record) :
    ∃ spelling own, (spelling, source) ∈ files ∧
      Path.components spelling = Path.components path ∧
      p.analyze t path source = .ok own ∧ record = own.inFile spelling := by
  obtain ⟨spelling, text, hspelling, hkey, hanalyze⟩ := h
  obtain ⟨hcomponents, hdigest⟩ := Cache.Key.mk.inj hkey
  obtain rfl : source = text := hseparates _ hmem _ hspelling hdigest
  have hown := analyze_eq_ok_congr t p hcomponents hanalyze
  have hagain := analyze_eq_ok_congr t p hcomponents.symm hown
  rw [hanalyze] at hagain
  exact ⟨spelling, _, hspelling, hcomponents.symm, hown, Except.ok.inj hagain⟩

/--
A record is in the file that it was made for.
-/
theorem inFile_of_analyze {path source : String} {record : FileRecord}
    (h : p.analyze t path source = .ok record) : record.inFile path = record := by
  have hcongr := analyze_eq_ok_congr t p (Eq.refl (Path.components path)) h
  rw [h] at hcongr
  exact (Except.ok.inj hcongr).symm

/-! Calls -/

/--
How far a call for a record is.
-/
inductive Phase where
  /-- It has not looked into the cache yet. -/
  | waiting
  /-- It has missed, and has yet to store its own record. -/
  | storing (record : FileRecord)
  | answered (answer : Except FileError FileRecord)

/--
A call for the record of a source text.
-/
structure Call where
  path : String
  source : String
  phase : Phase := .waiting

namespace Call

def answer? (call : Call) : Option (Except FileError FileRecord) :=
  match call.phase with
  | .answered answer => some answer
  | _ => none

def key (t : Toolchain) (call : Call) : Cache.Key := keyOf t call.path call.source

/--
The phase after the look into the cache.
-/
def lookup (t : Toolchain) (p : Provider) (call : Call) (cache : Cache) : Phase :=
  match cache.find? (call.key t) with
  | some record => .answered (.ok record)
  | none =>
    match p.analyze t call.path call.source with
    | .error e => .answered (.error e)
    | .ok record => .storing record

/--
The next use that a call makes of the cache.
-/
def advance (t : Toolchain) (p : Provider) (call : Call) (cache : Cache) : Call × Cache :=
  match call.phase with
  | .waiting => ({ call with phase := call.lookup t p cache }, cache)
  | .storing record =>
    ({ call with phase := .answered (.ok record) }, cache.insert (call.key t) record)
  | .answered _ => (call, cache)

end Call

variable (t p)

section NormalizeSource

variable {t p} {path source : String} {s : Session}

theorem run_normalizeSource_of_find? {record : FileRecord}
    (hfind : s.cache.find? (keyOf t path source) = some record) :
    (p.normalizeSource t path source).run s = (.ok record, s) := by
  unfold keyOf at hfind
  unfold normalizeSource
  rw [StateT.run_bind, StateT.run_get]
  simp only [pure_bind, hfind]
  rfl

theorem run_normalizeSource_of_error {e : FileError}
    (hfind : s.cache.find? (keyOf t path source) = none)
    (hanalyze : p.analyze t path source = .error e) :
    (p.normalizeSource t path source).run s = (.error e, s) := by
  unfold keyOf at hfind
  unfold normalizeSource
  rw [StateT.run_bind, StateT.run_get]
  simp only [pure_bind, hfind, hanalyze]
  rfl

theorem run_normalizeSource_of_ok {record : FileRecord}
    (hfind : s.cache.find? (keyOf t path source) = none)
    (hanalyze : p.analyze t path source = .ok record) :
    ((p.normalizeSource t path source).run s).1 = .ok record ∧
      ((p.normalizeSource t path source).run s).2.cache =
        s.cache.insert (keyOf t path source) record := by
  unfold keyOf at hfind
  unfold normalizeSource
  rw [StateT.run_bind, StateT.run_get]
  simp only [pure_bind, hfind, hanalyze]
  split
  case isTrue => constructor <;> rfl
  case isFalse => constructor <;> rfl

end NormalizeSource

/--
A call that is not interrupted makes two uses of the cache.
-/
theorem run_normalizeSource (path source : String) (s : Session) :
    let first := Call.advance t p { path, source } s.cache
    let second := first.1.advance t p first.2
    let run := (p.normalizeSource t path source).run s
    second.1.answer? = some run.1 ∧ second.2 = run.2.cache := by
  intro first second run
  have hlookup : first = ({ path, source, phase := Call.lookup t p { path, source } s.cache },
    s.cache) := rfl
  simp only [Call.lookup, Call.key] at hlookup
  simp only [second, run]
  cases hfind : s.cache.find? (keyOf t path source) with
  | some record =>
    rw [hfind] at hlookup
    rw [run_normalizeSource_of_find? hfind, hlookup]
    exact ⟨rfl, rfl⟩
  | none =>
    rw [hfind] at hlookup
    cases hanalyze : p.analyze t path source with
    | error e =>
      rw [hanalyze] at hlookup
      rw [run_normalizeSource_of_error hfind hanalyze, hlookup]
      exact ⟨rfl, rfl⟩
    | ok record =>
      rw [hanalyze] at hlookup
      obtain ⟨hanswer, hcache⟩ := run_normalizeSource_of_ok hfind hanalyze
      rw [hanswer, hcache, hlookup]
      exact ⟨rfl, rfl⟩

/--
A parser that gives up on empty texts and sees one name in every other text, and a hash that tells
texts of different sizes apart.
-/
def lengthToolchain : Toolchain where
  parse? _ source :=
    if source.isEmpty then none
    else
      some <| .node ⟨"module", true, false, none, 0, source.utf8ByteSize⟩ [
        .node ⟨"identifier", true, false, none, 0, source.utf8ByteSize⟩ []]
  digest source := source.utf8ByteSize.toUInt64

end Provider

end Polyglot
