import Polyglot.Proofs.Lists
import Polyglot.Proofs.Provider.Operations

/-!
This module contains what the order means in which parallel calls use the cache, and what it means
that the cache loses entries meanwhile. Up to the spelling of paths a project has one record, and
there is only one at all exactly if no file can get a record under another spelling of its path.
-/

namespace Polyglot.Provider.Workers

/-! Some schedules -/

section Schedules

variable (t : Toolchain) (p : Provider)

/--
The answer of a call that meets the given cache.
-/
def lone (cache : Cache) (file : String × String) : Except FileError FileRecord :=
  match cache.find? (keyOf t file.1 file.2) with
  | some record => .ok record
  | none => p.analyze t file.1 file.2

/--
The workers of the given numbers make their next uses of the cache.
-/
def turns (workers : List Nat) : List Step := workers.map .advance

theorem run_append (w : Workers) (first second : List Step) :
    w.run t p (first ++ second) = (w.run t p first).run t p second := by
  unfold run
  rw [List.foldl_append]

theorem step_append (done : List Call) (call : Call) (todo : List Call) (now : Cache) :
    step t p ⟨done ++ call :: todo, now⟩ (.advance done.length) =
      ⟨done ++ (call.advance t p now).1 :: todo, (call.advance t p now).2⟩ := by
  simp [step, advance]

/--
One use of the cache by each call in turn.
-/
def pass : List Call → Cache → List Call × Cache
  | [], now => ([], now)
  | call :: calls, now =>
    let rest := pass calls (call.advance t p now).2
    ((call.advance t p now).1 :: rest.1, rest.2)

theorem run_range' (done todo : List Call) (now : Cache) :
    run t p ⟨done ++ todo, now⟩ (turns (List.range' done.length todo.length)) =
      ⟨done ++ (pass t p todo now).1, (pass t p todo now).2⟩ := by
  induction todo generalizing done now with
  | nil => rfl
  | cons call todo ih =>
    have hrest := ih (done ++ [(call.advance t p now).1]) (call.advance t p now).2
    rw [List.append_assoc, List.length_append, List.length_singleton] at hrest
    rw [List.length_cons, List.range'_succ]
    change run t p (step t p _ _) _ = _
    rw [step_append]
    rw [List.append_assoc] at hrest
    exact hrest

theorem length_pass (calls : List Call) (now : Cache) :
    (pass t p calls now).1.length = calls.length := by
  induction calls generalizing now with
  | nil => rfl
  | cons call calls ih => exact congrArg Nat.succ (ih _)

/--
All workers look into the cache before any of them stores its record.
-/
def rounds (n : Nat) : List Step := turns (List.range' 0 n) ++ turns (List.range' 0 n)

theorem run_rounds (calls : List Call) (now : Cache) :
    (run t p ⟨calls, now⟩ (rounds calls.length)).calls =
      (pass t p (pass t p calls now).1 (pass t p calls now).2).1 := by
  have hfirst := run_range' t p [] calls now
  have hsecond := run_range' t p [] (pass t p calls now).1 (pass t p calls now).2
  rw [length_pass] at hsecond
  unfold rounds
  rw [run_append]
  simp only [List.nil_append, List.length_nil] at hfirst hsecond
  rw [hfirst, hsecond]

theorem pass_of_not_storing {calls : List Call} {now : Cache}
    (h : ∀ call ∈ calls, ∀ record, call.phase ≠ .storing record) :
    pass t p calls now = (calls.map fun call => (call.advance t p now).1, now) := by
  induction calls with
  | nil => rfl
  | cons call calls ih =>
    have hcall : (call.advance t p now).2 = now := by
      unfold Call.advance
      cases hphase : call.phase with
      | waiting => rfl
      | storing record => exact absurd hphase (h call List.mem_cons_self record)
      | answered answer => rfl
    have hrest := ih fun other hother => h other (List.mem_cons_of_mem call hother)
    simp only [pass, hcall, hrest, List.map_cons]

def finished (now : Cache) (call : Call) : Call :=
  match call.phase with
  | .answered _ => call
  | _ => { call with phase := .answered (lone t p now call.file) }

theorem advance_advance {call : Call} (h : ∀ record, call.phase ≠ .storing record)
    (now later : Cache) :
    ((call.advance t p now).1.advance t p later).1 = finished t p now call := by
  obtain ⟨path, source, phase⟩ := call
  cases phase with
  | storing record => exact absurd rfl (h record)
  | answered answer => rfl
  | waiting =>
    simp only [Call.advance, Call.lookup, Call.key, finished, Call.file, lone]
    cases now.find? (keyOf t path source) with
    | some record => rfl
    | none =>
      cases p.analyze t path source with
      | error e => rfl
      | ok record => rfl

theorem pass_pass {calls : List Call} (h : ∀ call ∈ calls, ∀ record, call.phase ≠ .storing record)
    (now later : Cache) :
    (pass t p (calls.map fun call => (call.advance t p now).1) later).1 =
      calls.map (finished t p now) := by
  induction calls generalizing later with
  | nil => rfl
  | cons call calls ih =>
    have hrest := ih fun other hother => h other (List.mem_cons_of_mem call hother)
    simp only [List.map_cons, pass, hrest, advance_advance t p (h call List.mem_cons_self)]

theorem calls_run_rounds {calls : List Call}
    (h : ∀ call ∈ calls, ∀ record, call.phase ≠ .storing record) (now : Cache) :
    (run t p ⟨calls, now⟩ (rounds calls.length)).calls = calls.map (finished t p now) := by
  rw [run_rounds, pass_of_not_storing t p h, pass_pass t p h]

theorem Call.phase_ofFile_ne (file : String × String) (record : FileRecord) :
    (Call.ofFile file).phase ≠ .storing record := by
  intro heq
  cases heq

theorem outcome?_of_answered {sources : List (String × String)} {cache : Cache}
    {schedule : List Step} {answer : String × String → Except FileError FileRecord}
    (h : ((start sources cache).run t p schedule).calls =
      sources.map fun file => ⟨file.1, file.2, .answered (answer file)⟩) :
    outcome? t p sources cache schedule =
      some (.ofResults (sources.map fun file => (file.1, answer file))) := by
  have hdone : ((start sources cache).run t p schedule).isDone := by
    unfold isDone
    rw [h]
    simp [Call.answer?]
  have hresults : ((start sources cache).run t p schedule).results =
      sources.map fun file => (file.1, answer file) := by
    unfold results
    rw [h, List.filterMap_map, ← List.filterMap_eq_map]
    rfl
  unfold outcome?
  simp only
  rw [if_pos hdone, hresults]

/--
If all workers look before one stores, everyone gets their own answer.
-/
theorem outcome?_rounds (sources : List (String × String)) (cache : Cache) :
    outcome? t p sources cache (rounds sources.length) =
      some (.ofResults (sources.map fun file => (file.1, lone t p cache file))) := by
  have hstoring : ∀ call ∈ sources.map Call.ofFile, ∀ record, call.phase ≠ .storing record := by
    intro call hcall record
    obtain ⟨file, -, rfl⟩ := List.mem_map.1 hcall
    apply Call.phase_ofFile_ne
  have hcalls := calls_run_rounds t p hstoring cache
  rw [List.length_map, List.map_map] at hcalls
  exact outcome?_of_answered t p hcalls

/--
If one worker finishes before the others begin, the others meet its record.
-/
theorem outcome?_first (before after : List (String × String)) {path source : String}
    {cache : Cache} {own : FileRecord} (henabled : cache.isEnabled)
    (hfind : cache.find? (keyOf t path source) = none)
    (hanalyze : p.analyze t path source = .ok own) :
    let sources := before ++ (path, source) :: after
    let later := cache.insert (keyOf t path source) own
    outcome? t p sources cache
        (turns [before.length, before.length] ++ rounds sources.length) =
      some (.ofResults (sources.map fun file => (file.1, lone t p later file))) := by
  intro sources later
  have hlone : lone t p later (path, source) = .ok own := by
    simp [lone, later, Cache.find?_insert, henabled]
  have hlookup : Call.lookup t p { path, source } cache = .storing own := by
    simp only [Call.lookup, Call.key, hfind, hanalyze]
  let calls :=
    before.map Call.ofFile ++ ⟨path, source, .answered (.ok own)⟩ :: after.map Call.ofFile
  have hfirst : run t p (start sources cache) (turns [before.length, before.length]) =
      ⟨calls, later⟩ := by
    have hlength : before.length = (before.map Call.ofFile).length := (List.length_map _).symm
    have hstart : start sources cache =
        ⟨before.map Call.ofFile ++ { path, source } :: after.map Call.ofFile, cache⟩ := by
      simp only [start, sources, List.map_append, List.map_cons]
      rfl
    rw [hstart, hlength]
    change step t p (step t p _ (.advance _)) (.advance _) = _
    rw [step_append, step_append]
    simp only [Call.advance, hlookup]
    rfl
  have hstoring : ∀ call ∈ calls, ∀ record, call.phase ≠ .storing record := by
    intro call hcall record
    simp only [calls, List.mem_append, List.mem_cons, List.mem_map] at hcall
    rcases hcall with ⟨file, -, rfl⟩ | rfl | ⟨file, -, rfl⟩
    · apply Call.phase_ofFile_ne
    · intro heq
      cases heq
    · apply Call.phase_ofFile_ne
  have hlength : sources.length = calls.length := by
    simp [sources, calls]
  apply outcome?_of_answered
  rw [run_append, hfirst, hlength, calls_run_rounds t p hstoring]
  simp only [calls, sources, List.map_append, List.map_cons, List.map_map, hlone]
  rfl

/--
Each worker finishes before the next one begins.
-/
def inOrder (first n : Nat) : List Step := (List.range' first n).flatMap fun i => turns [i, i]

def answerAll (sources : List (String × String)) :
    SessionM (List (String × Except FileError FileRecord)) :=
  sources.mapM fun (path, source) => do
    return (path, ← p.normalizeSource t path source)

theorem run_answerAll_cons (file : String × String) (sources : List (String × String))
    (s : Session) :
    let answer := (p.normalizeSource t file.1 file.2).run s
    let rest := (answerAll t p sources).run answer.2
    (answerAll t p (file :: sources)).run s = ((file.1, answer.1) :: rest.1, rest.2) := by
  intro answer rest
  unfold answerAll
  rw [List.mapM_cons, StateT.run_bind]
  rfl

theorem run_inOrder (sources : List (String × String)) (done : List Call) (s : Session) :
    let answers := (answerAll t p sources).run s
    ∃ calls, run t p ⟨done ++ sources.map Call.ofFile, s.cache⟩
        (inOrder done.length sources.length) = ⟨done ++ calls, answers.2.cache⟩ ∧
      calls.all (·.answer?.isSome) ∧
      calls.filterMap (fun call => call.answer?.map (call.path, ·)) = answers.1 := by
  intro answers
  induction sources generalizing done s with
  | nil => exact ⟨[], rfl, rfl, rfl⟩
  | cons file sources ih =>
    have hanswers := run_answerAll_cons t p file sources s
    let first := (Call.ofFile file).advance t p s.cache
    let second := first.1.advance t p first.2
    have hanswer : second.1.answer? = some ((p.normalizeSource t file.1 file.2).run s).1 :=
      (run_normalizeSource t p file.1 file.2 s).1
    have hcache : second.2 = ((p.normalizeSource t file.1 file.2).run s).2.cache :=
      (run_normalizeSource t p file.1 file.2 s).2
    have hpath : second.1.path = file.1 := by
      have hfile : second.1.file = file := by
        rw [Call.file_advance, Call.file_advance]
        rfl
      exact congrArg Prod.fst hfile
    have hsteps : run t p ⟨done ++ (file :: sources).map Call.ofFile, s.cache⟩
        (inOrder done.length (file :: sources).length) =
        run t p ⟨done ++ [second.1] ++ sources.map Call.ofFile, second.2⟩
          (inOrder (done ++ [second.1]).length sources.length) := by
      rw [List.length_append, List.append_assoc]
      change run t p (step t p (step t p _ _) _) _ = _
      rw [List.map_cons, step_append, step_append]
      rfl
    obtain ⟨calls, hrun, hdone, hresults⟩ :=
      ih (done ++ [second.1]) ((p.normalizeSource t file.1 file.2).run s).2
    refine ⟨second.1 :: calls, ?_, ?_, ?_⟩
    · rw [hsteps, hcache, hrun, List.append_assoc]
      simp only [answers, hanswers]
      rfl
    · rw [List.all_cons, hanswer, hdone]
      rfl
    · simp only [answers, hanswers]
      rw [List.filterMap_cons, hanswer, hresults, hpath]
      rfl

theorem run_collect (results : List (String × Except FileError FileRecord)) (s : Session) :
    ((collect results).run s).1 = .ofResults results := by
  unfold collect
  rw [StateT.run_bind]
  rfl

/--
Without parallelism the workers finish one after the other.
-/
theorem outcome?_inOrder (sources : List (String × String)) (s : Session) :
    outcome? t p sources s.cache (inOrder 0 sources.length) =
      some ((p.normalizeFiles t sources).run s).1 := by
  obtain ⟨calls, hrun, hdone, hresults⟩ := run_inOrder t p sources [] s
  have hfiles : ((p.normalizeFiles t sources).run s).1 =
      .ofResults ((answerAll t p sources).run s).1 := by
    unfold normalizeFiles
    rw [StateT.run_bind]
    exact run_collect _ _
  have hstart : (start sources s.cache).run t p (inOrder 0 sources.length) =
      ⟨calls, ((answerAll t p sources).run s).2.cache⟩ := hrun
  unfold outcome?
  simp only [hstart, isDone, results]
  rw [if_pos hdone, hfiles, hresults]

/--
Losses at the start leave the workers with a smaller cache.
-/
theorem outcome?_evict (sources : List (String × String)) (cache : Cache) (gone : List Cache.Key)
    (schedule : List Step) :
    outcome? t p sources cache (.evict gone :: schedule) =
      outcome? t p sources (cache.evict gone) schedule := rfl

theorem fits_turns (mayLose : Bool) (workers : List Nat) :
    (turns workers).all (·.fits mayLose) := by
  simp [turns, Step.fits]

theorem fits_rounds (mayLose : Bool) (n : Nat) : (rounds n).all (·.fits mayLose) := by
  simp [rounds, fits_turns]

end Schedules

/-! The project of a schedule -/

section Projects

variable {t : Toolchain} {p : Provider} {known sources : List (String × String)} {cache : Cache}
  {mayLose : Bool} {schedule : List Step} {project : ProjectRecord}

theorem unspelled_of_outcome? (hsound : Request.Sound t p known cache)
    (hseparates : t.Separates (known ++ sources))
    (h : outcome? t p sources cache schedule = some project) :
    ∃ results, project = .ofResults results ∧
      results.map ProjectRecord.unspelledResult =
        sources.map fun file => (file.1, (p.analyze t file.1 file.2).map FileRecord.unspelled) := by
  obtain ⟨results, rfl, hresults⟩ := results_of_outcome? (fits_true schedule) h
  refine ⟨results, rfl, ?_⟩
  symm
  apply map_eq_map_of_forall₂ hresults
  intro file hfile result ⟨hpath, hanswer⟩
  unfold ProjectRecord.unspelledResult
  rw [hpath, hanswer.unspelled_eq hsound hseparates hfile]

/--
Whether no file can get a record under another spelling of its path: neither one that the cache
holds at the start and may lose, nor one of another worker for a file that can miss.
-/
def SpelledAlike (t : Toolchain) (p : Provider) (sources : List (String × String))
    (cache : Cache) (mayLose : Bool) : Prop :=
  ∀ a ∈ sources, (mayLose → (cache.find? (keyOf t a.1 a.2)).all (·.file == a.1)) ∧
    (cache.isEnabled → MayMiss t cache mayLose a → ∀ b ∈ sources,
      keyOf t b.1 b.2 = keyOf t a.1 a.2 → (p.analyze t b.1 b.2).toBool → b.1 = a.1)

/--
Whether all schedules that let every worker finish give the same project.
-/
def IsDetermined (t : Toolchain) (p : Provider) (sources : List (String × String))
    (cache : Cache) (mayLose : Bool) : Prop :=
  ∀ schedule other project project', schedule.all (·.fits mayLose) → other.all (·.fits mayLose) →
    outcome? t p sources cache schedule = some project →
    outcome? t p sources cache other = some project' → project = project'

theorem lone_of_find?_none {file : String × String}
    (h : cache.find? (keyOf t file.1 file.2) = none) :
    lone t p cache file = p.analyze t file.1 file.2 := by
  unfold lone
  rw [h]

section Sufficient

variable (hsound : Request.Sound t p known cache) (hseparates : t.Separates (known ++ sources))
  (halike : SpelledAlike t p sources cache mayLose)

include hsound hseparates halike

/--
A file that can miss gets its own answer from the cache as well.
-/
theorem lone_of_mayMiss {file : String × String} (hfile : file ∈ sources)
    (hmiss : MayMiss t cache mayLose file) :
    lone t p cache file = p.analyze t file.1 file.2 := by
  cases hfind : cache.find? (keyOf t file.1 file.2) with
  | none => exact lone_of_find?_none hfind
  | some record =>
    have hlose : mayLose := by
      simpa [MayMiss, hfind] using hmiss
    have hspelled : record.file = file.1 := by
      have hall := (halike file hfile).1 hlose
      simpa [hfind] using hall
    have hanswer : MayAnswer t p sources cache mayLose file (.ok record) := .stored record hfind
    obtain ⟨own, hanalyze, -, hrecord⟩ := hanswer.exists_spelling hsound hseparates hfile
    rw [hspelled, inFile_of_analyze hanalyze] at hrecord
    rw [lone, hfind, hanalyze, hrecord]

theorem MayAnswer.eq_lone {file : String × String} (hfile : file ∈ sources)
    {answer : Except FileError FileRecord}
    (h : MayAnswer t p sources cache mayLose file answer) : answer = lone t p cache file := by
  cases h with
  | stored record hfind => rw [lone, hfind]
  | own hmiss => exact (lone_of_mayMiss hsound hseparates halike hfile hmiss).symm
  | shared record hmiss henabled hstems =>
    rw [lone_of_mayMiss hsound hseparates halike hfile hmiss]
    obtain ⟨spelling, own, hspelling, hcomponents, hanalyze, rfl⟩ := hstems.exists_spelling
      (fun a ha b hb => hseparates a (List.mem_append_right _ ha) b (List.mem_append_right _ hb))
      hfile
    have hpath : spelling = file.1 := by
      apply (halike file hfile).2 henabled hmiss (spelling, file.2) hspelling
      · unfold keyOf Cache.Key.ofPath
        rw [hcomponents]
      · rw [analyze_eq_ok_congr t p hcomponents hanalyze]
        rfl
    rw [hanalyze, hpath, inFile_of_analyze hanalyze]

theorem eq_of_spelledAlike (hschedule : schedule.all (·.fits mayLose))
    (h : outcome? t p sources cache schedule = some project) :
    project = .ofResults (sources.map fun file => (file.1, lone t p cache file)) := by
  obtain ⟨results, rfl, hresults⟩ := results_of_outcome? hschedule h
  have hlone : sources.map (fun file => (file.1, lone t p cache file)) = results.map id := by
    apply map_eq_map_of_forall₂ hresults
    rintro file hfile ⟨path, answer⟩ ⟨hpath, hanswer⟩
    rw [← hanswer.eq_lone hsound hseparates halike hfile, ← hpath]
    rfl
  rw [hlone, List.map_id]

end Sufficient

/--
With one file stored first, its record takes the place of the others that have the same key.
-/
theorem lone_insert (cache : Cache) {path source : String} (own : FileRecord)
    (henabled : cache.isEnabled) (file : String × String) :
    lone t p (cache.insert (keyOf t path source) own) file =
      if keyOf t path source = keyOf t file.1 file.2 then .ok own else lone t p cache file := by
  unfold lone
  rw [Cache.find?_insert]
  by_cases hkey : keyOf t path source = keyOf t file.1 file.2
  · rw [if_pos ⟨henabled, hkey⟩, if_pos hkey]
  · rw [if_neg (fun h => hkey h.2), if_neg hkey]

/--
If an entry is lost, the files with its key get their own answers.
-/
theorem lone_evict (cache : Cache) (key : Cache.Key) (file : String × String) :
    lone t p (cache.evict [key]) file =
      if key = keyOf t file.1 file.2 then p.analyze t file.1 file.2 else lone t p cache file := by
  have herase : cache.evict [key] = cache.erase key := rfl
  unfold lone
  rw [herase, Cache.find?_erase]
  by_cases hkey : key = keyOf t file.1 file.2
  · rw [if_pos hkey, if_pos hkey]
  · rw [if_neg hkey, if_neg hkey]

/--
How many files of a project have the given name.
-/
theorem countP_files_ofResults (answer : String × String → Except FileError FileRecord)
    (name : String) :
    (ProjectRecord.ofResults (sources.map fun file => (file.1, answer file))).files.countP
        (·.file == name) =
      sources.countP fun file => (answer file).toOption.any (·.file == name) := by
  rw [(ProjectRecord.files_ofResults_perm _).countP_eq, ← List.filterMap_eq_flatMap_toList,
    List.countP_filterMap, List.countP_map]
  congr 1
  funext file
  simp only [Function.comp_apply]
  cases answer file with
  | error e => rfl
  | ok record => rfl

/--
Two ways to answer give the same project only if they give each name to as many files.
-/
theorem not_of_ofResults_eq {answer other : String × String → Except FileError FileRecord}
    (h : ProjectRecord.ofResults (sources.map fun file => (file.1, answer file)) =
      .ofResults (sources.map fun file => (file.1, other file)))
    (name : String) {file : String × String} (hfile : file ∈ sources)
    (himp : ∀ b ∈ sources, (answer b).toOption.any (·.file == name) →
      (other b).toOption.any (·.file == name))
    (hother : (other file).toOption.any (·.file == name)) :
    (answer file).toOption.any (·.file == name) := by
  by_contra hanswer
  have hcount := congrArg (·.files.countP (·.file == name)) h
  simp only [countP_files_ofResults] at hcount
  exact absurd hcount (Nat.ne_of_lt (countP_lt_countP hfile himp hanswer hother))

section Necessary

variable (hdetermined : IsDetermined t p sources cache mayLose)

include hdetermined

theorem IsDetermined.evict (hlose : mayLose) (gone : List Cache.Key) :
    IsDetermined t p sources (cache.evict gone) mayLose := by
  intro schedule other project project' hschedule hother h h'
  have hfits : Step.fits mayLose (.evict gone) := hlose
  apply hdetermined (.evict gone :: schedule) (.evict gone :: other)
  · rw [List.all_cons, hfits, hschedule]
    rfl
  · rw [List.all_cons, hfits, hother]
    rfl
  · exact h
  · exact h'

/--
If two spellings of a file that is not in the cache meet, the project depends on whether one of them
finishes first.
-/
theorem IsDetermined.eq_of_find?_none (hseparates : t.Separates sources)
    (henabled : cache.isEnabled) {a b : String × String} (ha : a ∈ sources) (hb : b ∈ sources)
    (hkey : keyOf t b.1 b.2 = keyOf t a.1 a.2) (hnone : cache.find? (keyOf t a.1 a.2) = none)
    (hok : (p.analyze t b.1 b.2).toBool) : b.1 = a.1 := by
  by_contra hne
  obtain ⟨path, source⟩ := b
  obtain ⟨hcomponents, hdigest⟩ := Cache.Key.mk.inj hkey
  obtain rfl : source = a.2 := hseparates _ hb _ ha hdigest
  cases hanalyze : p.analyze t path a.2 with
  | error e =>
    rw [hanalyze] at hok
    nomatch hok
  | ok own =>
    have hfile : own.file = path := (file_and_contentHash_of_analyze t p hanalyze).1
    obtain ⟨before, after, hsources⟩ := List.append_of_mem hb
    have hfirst := outcome?_first t p before after henabled (hkey ▸ hnone) hanalyze
    simp only [← hsources] at hfirst
    have hprojects := hdetermined _ _ _ _ (by simp [fits_turns, fits_rounds]) (fits_rounds _ _)
      hfirst (outcome?_rounds t p sources cache)
    have hnamed := not_of_ofResults_eq hprojects a.1 ha ?himp ?hother
    case himp =>
      intro file _ hnamed
      rw [lone_insert cache own henabled] at hnamed
      split at hnamed
      case isTrue => simp [Except.toOption, hfile, hne] at hnamed
      case isFalse => exact hnamed
    case hother =>
      rw [lone_of_find?_none hnone, analyze_eq_ok_congr t p hcomponents.symm hanalyze]
      simp [Except.toOption, FileRecord.inFile]
    rw [lone_insert cache own henabled, if_pos hkey] at hnamed
    simp [Except.toOption, hfile, hne] at hnamed

/--
If the cache holds a file under another spelling, the project depends on whether it is lost.
-/
theorem IsDetermined.spelled_of_find? (hsound : Request.Sound t p known cache)
    (hseparates : t.Separates (known ++ sources)) (hlose : mayLose) {file : String × String}
    (hfile : file ∈ sources) {record : FileRecord}
    (hfind : cache.find? (keyOf t file.1 file.2) = some record) : record.file = file.1 := by
  by_contra hne
  have hanswer : MayAnswer t p sources cache mayLose file (.ok record) := .stored record hfind
  obtain ⟨own, hanalyze, -⟩ := hanswer.exists_spelling hsound hseparates hfile
  have hown : own.file = file.1 := (file_and_contentHash_of_analyze t p hanalyze).1
  let key := keyOf t file.1 file.2
  have hevicted := (outcome?_evict t p sources cache [key] _).trans (outcome?_rounds t p sources _)
  have hfits : (Step.evict [key] :: rounds sources.length).all (·.fits mayLose) := by
    rw [List.all_cons, fits_rounds, Bool.and_true]
    exact hlose
  have hprojects := hdetermined _ _ _ _ (fits_rounds _ _) hfits
    (outcome?_rounds t p sources cache) hevicted
  have hnamed := not_of_ofResults_eq hprojects file.1 hfile ?himp ?hother
  case himp =>
    intro other _ hnamed
    rw [lone_evict]
    split
    case isFalse => exact hnamed
    case isTrue hkey =>
      rw [lone, ← hkey, hfind] at hnamed
      simp [Except.toOption, hne] at hnamed
  case hother =>
    rw [lone_evict, if_pos rfl, hanalyze]
    simp [Except.toOption, hown]
  rw [lone, hfind] at hnamed
  simp [Except.toOption, hne] at hnamed

theorem IsDetermined.spelledAlike (hsound : Request.Sound t p known cache)
    (hseparates : t.Separates (known ++ sources)) : SpelledAlike t p sources cache mayLose := by
  have hsources : t.Separates sources := fun a ha b hb =>
    hseparates a (List.mem_append_right _ ha) b (List.mem_append_right _ hb)
  intro a ha
  constructor
  · intro hlose
    rw [Option.all_eq_true]
    intro record hfind
    rw [beq_iff_eq]
    exact hdetermined.spelled_of_find? hsound hseparates hlose ha hfind
  · intro henabled hmiss b hb hkey hok
    obtain hlose | hnone := hmiss
    · -- If the entry of the file is lost first, the file is new to the cache.
      let key := keyOf t a.1 a.2
      have hempty : (cache.evict [key]).find? key = none := by
        have herase := cache.find?_erase key key
        rwa [if_pos rfl] at herase
      apply (hdetermined.evict hlose [key]).eq_of_find?_none hsources ?_ ha hb hkey hempty hok
      rwa [(cache.shrinksTo_evict [key]).isEnabled_eq]
    · exact hdetermined.eq_of_find?_none hsources henabled ha hb hkey hnone hok

end Necessary

open Operation in
/--
Whatever a provider has done before, whatever the order in which its workers use the cache and
whatever the cache loses meanwhile, a project has the same statistics, the same failures and the
same files up to the spelling of their paths. It is the same project in every order exactly if no
file can get a record under another spelling of its path.
-/
theorem project_up_to_spelling (t : Toolchain) (p : Provider) (before : List Operation)
    (warnings : List Warning) (sources : List (String × String))
    (hseparates : t.Separates (before.flatMap (lookups p) ++ sources)) :
    let s : Session := { cache := applyAll t p before p.emptyCache, warnings }
    outcome? t p sources s.cache (inOrder 0 sources.length) =
      some ((p.normalizeFiles t sources).run s).1 ∧
    (∀ schedule other project project',
      outcome? t p sources s.cache schedule = some project →
      outcome? t p sources s.cache other = some project' →
      project.stats = project'.stats ∧ project.failures = project'.failures ∧
        (project.files.map FileRecord.unspelled).Perm
          (project'.files.map FileRecord.unspelled)) ∧
    ∀ mayLose, IsDetermined t p sources s.cache mayLose ↔
      SpelledAlike t p sources s.cache mayLose := by
  intro s
  have hsound := sound_reached t p before
  refine ⟨outcome?_inOrder t p sources s, ?_, ?_⟩
  · intro schedule other project project' hproject hproject'
    obtain ⟨results, rfl, hresults⟩ := unspelled_of_outcome? hsound hseparates hproject
    obtain ⟨results', rfl, hresults'⟩ := unspelled_of_outcome? hsound hseparates hproject'
    apply ProjectRecord.ofResults_of_unspelled
    rw [hresults, hresults']
  · intro mayLose
    constructor
    · intro hdetermined
      exact hdetermined.spelledAlike hsound hseparates
    · intro halike schedule other project project' hschedule hother hproject hproject'
      rw [eq_of_spelledAlike hsound hseparates halike hschedule hproject,
        eq_of_spelledAlike hsound hseparates halike hother hproject']

theorem repeatedFiles_in_every_order :
    let t := lengthToolchain
    let p : Provider := ⟨{}, Language.all⟩
    let before : List Operation := [.request (.source "./a.py" "name")]
    let sources :=
      [("b.py", "x"), ("a.txt", "x"), ("b.py", "x"), ("./b.py", "x"), ("./a.py", "name"),
        ("c.py", "")]
    let s : Session := { cache := Operation.applyAll t p before p.emptyCache }
    t.Separates (before.flatMap (Operation.lookups p) ++ sources) ∧
      SpelledAlike t p sources s.cache true ∧
      ∀ schedule project, outcome? t p sources s.cache schedule = some project →
        project = ((p.normalizeFiles t sources).run s).1 := by
  intro t p before sources s
  have hseparates : t.Separates (before.flatMap (Operation.lookups p) ++ sources) := by
    decide +kernel
  have halike : SpelledAlike t p sources s.cache true := by
    unfold SpelledAlike
    decide +kernel
  obtain ⟨hinOrder, -, hiff⟩ := project_up_to_spelling t p before [] sources hseparates
  refine ⟨hseparates, halike, ?_⟩
  intro schedule project h
  exact (hiff true).2 halike _ _ _ _ (fits_true _) (fits_true _) h hinOrder

theorem names_of_run {names : List String} (hdone : ((start sources cache).run t p schedule).isDone)
    (hnames : (((start sources cache).run t p schedule).results.flatMap
      (·.2.toOption.toList)).map (·.file) = names)
    (hsorted : names.Pairwise fun a b => decide (a ≤ b)) :
    (outcome? t p sources cache schedule).map (·.files.map (·.file)) = some names := by
  unfold outcome?
  simp only
  rw [if_pos hdone, Option.map_some, ProjectRecord.ofResults_eq]
  unfold ProjectRecord.sort
  simp only
  rw [List.map_mergeSort (s := fun a b => a ≤ b) (f := FileRecord.file) (fun _ _ _ _ => rfl),
    ProjectRecord.files_addAll, List.nil_append, hnames, List.mergeSort_of_pairwise hsorted]

/--
Two spellings of one path: the second file takes over the name of the first, or it does not.
-/
theorem respelledFiles_depend_on_order :
    let outcome? :=
      outcome? lengthToolchain ⟨{}, Language.all⟩ [("a//b.py", "x"), ("a/b.py", "x")] {}
    (outcome? (turns [0, 0, 1, 1])).map (·.files.map (·.file)) = some ["a//b.py", "a//b.py"] ∧
      (outcome? (turns [0, 1, 0, 1])).map (·.files.map (·.file)) = some ["a//b.py", "a/b.py"] := by
  constructor
  · apply names_of_run
    · decide +kernel
    · decide +kernel
    · decide +kernel
  · apply names_of_run
    · decide +kernel
    · decide +kernel
    · decide +kernel

end Projects

end Polyglot.Provider.Workers
