import Mathlib.Data.List.Forall2
import Polyglot.Proofs.Provider.Calls

/-!
This module contains calls that share a cache and use it in any order, while the cache may lose
entries at any time. What a call finds there was there before, or it is the record of another call
under another spelling of the path, and a project depends on that spelling only in the names and in
the order of its files.
-/

namespace Polyglot

namespace FileRecord

/--
What is left of a record if the spelling of its path is forgotten.
-/
def unspelled (record : FileRecord) : List Component × FileRecord :=
  (Path.components record.file, record.inFile "")

theorem inFile_inFile (record : FileRecord) (file other : String) :
    (record.inFile file).inFile other = record.inFile other := by
  unfold inFile Contents.inFile
  simp only [List.map_map]
  rfl

theorem add_inFile (stats : ProjectStats) (record : FileRecord) (file : String) :
    stats.add (record.inFile file) = stats.add record := by
  unfold ProjectStats.add inFile Contents.inFile
  simp only [List.length_map]

theorem add_of_unspelled (stats : ProjectStats) {record other : FileRecord}
    (h : record.unspelled = other.unspelled) : stats.add record = stats.add other := by
  rw [← add_inFile stats record "", (Prod.mk.inj h).2, add_inFile]

end FileRecord

namespace ProjectRecord

/--
Equal projects up to the spelling of paths, file by file.
-/
structure Alike (a b : ProjectRecord) : Prop where
  stats : a.stats = b.stats
  failures : a.failures = b.failures
  files : a.files.map FileRecord.unspelled = b.files.map FileRecord.unspelled

theorem Alike.add {a b : ProjectRecord} (h : a.Alike b) (path : String)
    {result other : Except FileError FileRecord}
    (hresult : result.map FileRecord.unspelled = other.map FileRecord.unspelled) :
    (a.add path result).Alike (b.add path other) := by
  obtain ⟨hstats, hfailures, hfiles⟩ := h
  cases result with
  | error e =>
    cases other with
    | ok record => nomatch hresult
    | error e' =>
      obtain rfl : e = e' := Except.error.inj hresult
      by_cases hskip : e.isSkip
      · simp only [ProjectRecord.add, if_pos hskip, hstats]
        exact ⟨rfl, hfailures, hfiles⟩
      · simp only [ProjectRecord.add, if_neg hskip, hstats, hfailures]
        exact ⟨rfl, rfl, hfiles⟩
  | ok record =>
    cases other with
    | error e => nomatch hresult
    | ok record' =>
      have hrecord : record.unspelled = record'.unspelled := Except.ok.inj hresult
      constructor
      · unfold ProjectRecord.add
        rw [hstats]
        exact FileRecord.add_of_unspelled _ hrecord
      · exact hfailures
      · simp only [ProjectRecord.add, List.map_append, hfiles, List.map_cons, List.map_nil, hrecord]

/--
The result for a file without the spelling of paths.
-/
def unspelledResult (result : String × Except FileError FileRecord) :
    String × Except FileError (List Component × FileRecord) :=
  (result.1, result.2.map FileRecord.unspelled)

def addAll (p : ProjectRecord) (results : List (String × Except FileError FileRecord)) :
    ProjectRecord :=
  results.foldl (fun p result => p.add result.1 result.2) p

theorem ofResults_eq (results : List (String × Except FileError FileRecord)) :
    ofResults results = sort (addAll {} results) := rfl

theorem Alike.addAll {results others : List (String × Except FileError FileRecord)}
    (hresults : results.map unspelledResult = others.map unspelledResult) {a b : ProjectRecord}
    (h : a.Alike b) : (a.addAll results).Alike (b.addAll others) := by
  induction results generalizing others a b with
  | nil =>
    cases others with
    | nil => exact h
    | cons other others => nomatch hresults
  | cons result results ih =>
    cases others with
    | nil => nomatch hresults
    | cons other others =>
      obtain ⟨hfirst, hrest⟩ := List.cons.inj hresults
      obtain ⟨hpath, hresult⟩ := Prod.mk.inj hfirst
      have hadd := h.add result.1 hresult
      apply ih hrest
      simp only
      rwa [← hpath]

/--
Results that agree up to the spelling of paths give projects that do, with the files in an order
that depends on the spelling.
-/
theorem ofResults_of_unspelled {results others : List (String × Except FileError FileRecord)}
    (h : results.map unspelledResult = others.map unspelledResult) :
    (ofResults results).stats = (ofResults others).stats ∧
      (ofResults results).failures = (ofResults others).failures ∧
      ((ofResults results).files.map FileRecord.unspelled).Perm
        ((ofResults others).files.map FileRecord.unspelled) := by
  obtain ⟨hstats, hfailures, hfiles⟩ := Alike.addAll h (⟨rfl, rfl, rfl⟩ : Alike {} {})
  rw [ofResults_eq, ofResults_eq]
  refine ⟨hstats, ?_, ?_⟩
  · unfold sort
    rw [hfailures]
  · have hleft := (List.mergeSort_perm (addAll {} results).files fun a b => a.file ≤ b.file).map
      FileRecord.unspelled
    have hright := (List.mergeSort_perm (addAll {} others).files fun a b => a.file ≤ b.file).map
      FileRecord.unspelled
    rw [hfiles] at hleft
    exact hleft.trans hright.symm

theorem files_add (p : ProjectRecord) (path : String) (result : Except FileError FileRecord) :
    (p.add path result).files = p.files ++ result.toOption.toList := by
  cases result with
  | ok record => rfl
  | error e =>
    by_cases hskip : e.isSkip
    · simp only [add, if_pos hskip]
      exact (List.append_nil _).symm
    · simp only [add, if_neg hskip]
      exact (List.append_nil _).symm

theorem files_addAll (p : ProjectRecord) (results : List (String × Except FileError FileRecord)) :
    (p.addAll results).files = p.files ++ results.flatMap (·.2.toOption.toList) := by
  induction results generalizing p with
  | nil => exact (List.append_nil _).symm
  | cons result results ih =>
    have hrest := ih (p.add result.1 result.2)
    rw [files_add, List.append_assoc] at hrest
    exact hrest

theorem files_ofResults_perm (results : List (String × Except FileError FileRecord)) :
    (ofResults results).files.Perm (results.flatMap (·.2.toOption.toList)) := by
  have hfiles := files_addAll {} results
  rw [List.nil_append] at hfiles
  rw [ofResults_eq, ← hfiles]
  exact List.mergeSort_perm _ _

end ProjectRecord

namespace Provider

namespace Call

def ofFile (file : String × String) : Call where
  path := file.1
  source := file.2

def file (call : Call) : String × String := (call.path, call.source)

theorem file_advance (t : Toolchain) (p : Provider) (call : Call) (cache : Cache) :
    (call.advance t p cache).1.file = call.file := by
  unfold advance
  cases call.phase with
  | waiting => rfl
  | storing record => rfl
  | answered answer => rfl

end Call

/--
Calls that share a cache.
-/
structure Workers where
  calls : List Call
  cache : Cache

namespace Workers

/--
What happens next to calls that share a cache.
-/
inductive Step where
  /-- One of the workers makes its next use of the cache. -/
  | advance (worker : Nat)
  /-- The cache loses entries. -/
  | evict (gone : List Cache.Key)
deriving DecidableEq

/--
Whether a step is among those that may happen if the cache loses entries only as stated.
-/
def Step.fits (mayLose : Bool) : Step → Bool
  | advance _ => true
  | evict _ => mayLose

section Run

variable (t : Toolchain) (p : Provider)

def start (sources : List (String × String)) (cache : Cache) : Workers where
  calls := sources.map Call.ofFile
  cache

def advance (w : Workers) (worker : Nat) : Workers :=
  match w.calls[worker]? with
  | none => w
  | some call =>
    { calls := w.calls.set worker (call.advance t p w.cache).1
      cache := (call.advance t p w.cache).2 }

def step (w : Workers) : Step → Workers
  | .advance worker => w.advance t p worker
  | .evict gone => { w with cache := w.cache.evict gone }

def run (w : Workers) (schedule : List Step) : Workers := schedule.foldl (step t p) w

def isDone (w : Workers) : Bool := w.calls.all (·.answer?.isSome)

def results (w : Workers) : List (String × Except FileError FileRecord) :=
  w.calls.filterMap fun call => call.answer?.map (call.path, ·)

/--
The project that a schedule gives, if it lets every worker finish.
-/
def outcome? (sources : List (String × String)) (cache : Cache) (schedule : List Step) :
    Option ProjectRecord :=
  let w := (start sources cache).run t p schedule
  if w.isDone then some (.ofResults w.results) else none

end Run

section Invariant

variable {t : Toolchain} {p : Provider} {sources : List (String × String)} {cache : Cache}
  {mayLose : Bool}

/--
Whether a file can miss in the cache.
-/
def MayMiss (t : Toolchain) (cache : Cache) (mayLose : Bool) (file : String × String) : Prop :=
  mayLose ∨ cache.find? (keyOf t file.1 file.2) = none

instance (t : Toolchain) (cache : Cache) (mayLose : Bool) (file : String × String) :
    Decidable (MayMiss t cache mayLose file) :=
  inferInstanceAs (Decidable (mayLose ∨ cache.find? (keyOf t file.1 file.2) = none))

/--
The answers that a call can get: what is in the cache at the start, its own answer, or the record of
another worker.
-/
inductive MayAnswer (t : Toolchain) (p : Provider) (sources : List (String × String))
    (cache : Cache) (mayLose : Bool) (file : String × String) :
    Except FileError FileRecord → Prop
  | stored (record : FileRecord) : cache.find? (keyOf t file.1 file.2) = some record →
    MayAnswer t p sources cache mayLose file (.ok record)
  | own : MayMiss t cache mayLose file →
    MayAnswer t p sources cache mayLose file (p.analyze t file.1 file.2)
  | shared (record : FileRecord) : MayMiss t cache mayLose file → cache.isEnabled →
    StemsFrom t p sources (keyOf t file.1 file.2) record →
    MayAnswer t p sources cache mayLose file (.ok record)

def CallOk (t : Toolchain) (p : Provider) (sources : List (String × String)) (cache : Cache)
    (mayLose : Bool) (call : Call) : Prop :=
  match call.phase with
  | .waiting => True
  | .storing record =>
    MayMiss t cache mayLose call.file ∧ p.analyze t call.path call.source = .ok record
  | .answered answer => MayAnswer t p sources cache mayLose call.file answer

/--
The cache holds some of what it held at the start, and new records of the workers.
-/
structure CacheOk (t : Toolchain) (p : Provider) (sources : List (String × String))
    (cache : Cache) (mayLose : Bool) (now : Cache) : Prop where
  isEnabled_eq : now.isEnabled = cache.isEnabled
  kept : mayLose = false → ∀ key record, cache.find? key = some record →
    now.find? key = some record
  stems : ∀ key record, now.find? key = some record → cache.find? key = some record ∨
    (mayLose ∨ cache.find? key = none) ∧ cache.isEnabled ∧ StemsFrom t p sources key record

namespace CacheOk

variable {now : Cache} (hcache : CacheOk t p sources cache mayLose now)

include hcache

theorem mayMiss {file : String × String} (h : now.find? (keyOf t file.1 file.2) = none) :
    MayMiss t cache mayLose file := by
  cases hlose : mayLose with
  | true => exact .inl rfl
  | false =>
    right
    rw [Option.eq_none_iff_forall_ne_some]
    intro record hstored
    rw [hcache.kept hlose _ _ hstored] at h
    nomatch h

theorem callOk_lookup (path source : String) :
    CallOk t p sources cache mayLose
      ⟨path, source, Call.lookup t p { path, source } now⟩ := by
  cases hnow : now.find? (keyOf t path source) with
  | some record =>
    have hlookup : Call.lookup t p { path, source } now = .answered (.ok record) := by
      simp only [Call.lookup, Call.key, hnow]
    rw [hlookup]
    obtain hstored | ⟨hmiss, henabled, hstems⟩ := hcache.stems _ _ hnow
    · exact .stored record hstored
    · exact .shared record hmiss henabled hstems
  | none =>
    have hmiss : MayMiss t cache mayLose (path, source) := hcache.mayMiss hnow
    cases hanalyze : p.analyze t path source with
    | error e =>
      have hlookup : Call.lookup t p { path, source } now = .answered (.error e) := by
        simp only [Call.lookup, Call.key, hnow, hanalyze]
      rw [hlookup]
      change MayAnswer t p sources cache mayLose (path, source) (.error e)
      rw [← hanalyze]
      exact .own hmiss
    | ok record =>
      have hlookup : Call.lookup t p { path, source } now = .storing record := by
        simp only [Call.lookup, Call.key, hnow, hanalyze]
      rw [hlookup]
      exact ⟨hmiss, hanalyze⟩

theorem callOk_advance {call : Call} (hcall : CallOk t p sources cache mayLose call) :
    CallOk t p sources cache mayLose (call.advance t p now).1 := by
  obtain ⟨path, source, phase⟩ := call
  cases phase with
  | waiting => exact hcache.callOk_lookup path source
  | storing record =>
    obtain ⟨hmiss, hanalyze⟩ := hcall
    change MayAnswer t p sources cache mayLose (path, source) (.ok record)
    rw [← hanalyze]
    exact .own hmiss
  | answered answer => exact hcall

theorem insert {path source : String} {record : FileRecord}
    (hmiss : MayMiss t cache mayLose (path, source))
    (hanalyze : p.analyze t path source = .ok record) (hmem : (path, source) ∈ sources) :
    CacheOk t p sources cache mayLose (now.insert (keyOf t path source) record) := by
  constructor
  · rw [Cache.isEnabled_insert, hcache.isEnabled_eq]
  · intro hlose key stored hkey
    rw [Cache.find?_insert, if_neg]
    · exact hcache.kept hlose key stored hkey
    · rintro ⟨-, rfl⟩
      obtain hmiss | hmiss := hmiss
      · rw [hlose] at hmiss
        nomatch hmiss
      · rw [hmiss] at hkey
        nomatch hkey
  · intro key stored hkey
    rw [Cache.find?_insert] at hkey
    split at hkey
    case isTrue hnew =>
      obtain ⟨henabled, rfl⟩ := hnew
      cases hkey
      rw [hcache.isEnabled_eq] at henabled
      exact .inr ⟨hmiss, henabled, path, source, hmem, rfl, hanalyze⟩
    case isFalse => exact hcache.stems key stored hkey

theorem advance {call : Call} (hcall : CallOk t p sources cache mayLose call)
    (hmem : call.file ∈ sources) :
    CacheOk t p sources cache mayLose (call.advance t p now).2 := by
  obtain ⟨path, source, phase⟩ := call
  cases phase with
  | waiting => exact hcache
  | answered answer => exact hcache
  | storing record => exact hcache.insert hcall.1 hcall.2 hmem

theorem evict (hlose : mayLose) (gone : List Cache.Key) :
    CacheOk t p sources cache mayLose (now.evict gone) := by
  have hshrinks := now.shrinksTo_evict gone
  constructor
  · rw [hshrinks.isEnabled_eq, hcache.isEnabled_eq]
  · intro hkept
    rw [hlose] at hkept
    nomatch hkept
  · intro key record hfind
    exact hcache.stems key record (hshrinks.find?_of_find? key record hfind)

end CacheOk

/--
What every step keeps.
-/
structure Invariant (t : Toolchain) (p : Provider) (sources : List (String × String))
    (cache : Cache) (mayLose : Bool) (w : Workers) : Prop where
  files : w.calls.map Call.file = sources
  calls : ∀ call ∈ w.calls, CallOk t p sources cache mayLose call
  cache : CacheOk t p sources cache mayLose w.cache

variable (t p sources cache mayLose) in
theorem invariant_start : Invariant t p sources cache mayLose (start sources cache) := by
  constructor
  · rw [start, List.map_map]
    exact List.map_id sources
  · intro call hcall
    obtain ⟨file, -, rfl⟩ := List.mem_map.1 hcall
    trivial
  · exact ⟨rfl, fun _ _ _ h => h, fun _ _ h => .inl h⟩

theorem Invariant.advance {w : Workers} (h : Invariant t p sources cache mayLose w)
    (worker : Nat) : Invariant t p sources cache mayLose (w.advance t p worker) := by
  unfold Workers.advance
  cases hcall : w.calls[worker]? with
  | none => exact h
  | some call =>
    have hmem : call ∈ w.calls := List.mem_of_getElem? hcall
    have hfile : call.file ∈ sources := by
      rw [← h.files]
      exact List.mem_map_of_mem hmem
    constructor
    · obtain ⟨hlt, rfl⟩ := List.getElem?_eq_some_iff.1 hcall
      rw [List.map_set, Call.file_advance, ← h.files, ← List.getElem_map Call.file,
        List.set_getElem_self]
      rwa [List.length_map]
    · intro other hother
      rcases List.mem_or_eq_of_mem_set hother with hold | rfl
      · exact h.calls other hold
      · exact h.cache.callOk_advance (h.calls call hmem)
    · exact h.cache.advance (h.calls call hmem) hfile

theorem Invariant.step {w : Workers} (h : Invariant t p sources cache mayLose w) {step : Step}
    (hstep : step.fits mayLose) : Invariant t p sources cache mayLose (w.step t p step) := by
  cases step with
  | advance worker => exact h.advance worker
  | evict gone => exact ⟨h.files, h.calls, h.cache.evict hstep gone⟩

theorem invariant_run {schedule : List Step} (hschedule : schedule.all (·.fits mayLose))
    {w : Workers} (h : Invariant t p sources cache mayLose w) :
    Invariant t p sources cache mayLose (w.run t p schedule) := by
  induction schedule generalizing w with
  | nil => exact h
  | cons step schedule ih =>
    rw [List.all_cons, Bool.and_eq_true] at hschedule
    exact ih hschedule.2 (h.step hschedule.1)

theorem fits_true (schedule : List Step) : schedule.all (·.fits true) := by
  rw [List.all_eq_true]
  intro step _
  cases step with
  | advance worker => rfl
  | evict gone => rfl

theorem forall₂_results {w : Workers} (h : w.isDone) :
    List.Forall₂ (fun call result => call.phase = .answered result.2 ∧ result.1 = call.path)
      w.calls w.results := by
  obtain ⟨calls, cache⟩ := w
  unfold isDone results at *
  induction calls with
  | nil => exact .nil
  | cons call calls ih =>
    rw [List.all_cons, Bool.and_eq_true] at h
    obtain ⟨hcall, hcalls⟩ := h
    obtain ⟨path, source, phase⟩ := call
    cases phase with
    | waiting => nomatch hcall
    | storing record => nomatch hcall
    | answered answer => exact .cons ⟨rfl, rfl⟩ (ih hcalls)

/--
The project of a schedule has one result for each file, which is an answer that the file can get.
-/
theorem results_of_outcome? {schedule : List Step} (hschedule : schedule.all (·.fits mayLose))
    {project : ProjectRecord} (h : outcome? t p sources cache schedule = some project) :
    ∃ results, project = .ofResults results ∧
      List.Forall₂ (fun file result => result.1 = file.1 ∧
        MayAnswer t p sources cache mayLose file result.2) sources results := by
  have hinvariant := invariant_run hschedule (invariant_start t p sources cache mayLose)
  unfold outcome? at h
  simp only at h
  split at h
  case isFalse => nomatch h
  case isTrue hdone =>
    cases h
    refine ⟨_, rfl, ?_⟩
    have hcalls := (List.forall₂_and_left _ _).2 ⟨hinvariant.calls, forall₂_results hdone⟩
    have hfiles : List.Forall₂ (fun file result => result.1 = file.1 ∧
        MayAnswer t p sources cache mayLose file result.2)
        (((start sources cache).run t p schedule).calls.map Call.file)
        ((start sources cache).run t p schedule).results := by
      rw [List.forall₂_map_left_iff]
      apply hcalls.imp
      intro call result ⟨hok, hphase, hpath⟩
      unfold CallOk at hok
      rw [hphase] at hok
      exact ⟨hpath, hok⟩
    rwa [hinvariant.files] at hfiles

end Invariant

end Workers

end Provider

end Polyglot
