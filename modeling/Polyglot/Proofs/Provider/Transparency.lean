import Polyglot.Proofs.Provider.Calls

/-!
This module contains the proof that the cache is transparent: whatever a provider was asked before,
and whatever its cache has lost, it answers like a provider without a cache, up to the spelling of
the path under which a record was stored.
-/

namespace Polyglot.Provider

/--
What can happen to a provider and its cache.
-/
inductive Request where
  | source (path text : String)
  | file (disk : Disk) (path : String)
  /-- A call for a source text that loses entries between its look into the cache and its store. -/
  | interrupted (path text : String) (gone : List Cache.Key)
  | invalidate (path : String) (contentHash : UInt64)
  | clear
  | evict (gone : List Cache.Key)

/--
A provider with the same settings and its cache turned off.
-/
def uncached (p : Provider) : Provider :=
  { p with
    settings :=
      { p.settings with provider := { p.settings.provider with cacheCapacity := some 0 } } }

namespace Request

section Serve

variable (t : Toolchain) (p : Provider)

/--
The answer and the cache of a call that loses entries on the way.
-/
def serveInterrupted (path text : String) (gone : List Cache.Key) (cache : Cache) :
    Option (Except FileError FileRecord) × Cache :=
  let first := Call.advance t p { path, source := text } cache
  let second := first.1.advance t p (first.2.evict gone)
  (second.1.answer?, second.2)

def changeCache (change : Cache → Cache) : SessionM (Option (Except FileError FileRecord)) := do
  modify fun s => { s with cache := change s.cache }
  return none

def serve : Request → SessionM (Option (Except FileError FileRecord))
  | source path text => some <$> p.normalizeSource t path text
  | file disk path => some <$> p.normalizeFile t disk path
  | interrupted path text gone =>
    modifyGet fun s =>
      let (answer, cache) := serveInterrupted t p path text gone s.cache
      (answer, { s with cache })
  | invalidate path contentHash => changeCache (·.erase (.ofPath path contentHash))
  | clear => changeCache Cache.clear
  | evict gone => changeCache (·.evict gone)

def serveAll (requests : List Request) (s : Session) : Session :=
  requests.foldl (fun s r => ((r.serve t p).run s).2) s

end Serve

/--
The path and the text that a request looks up in the cache.
-/
def input? (p : Provider) : Request → Option (String × String)
  | source path text | interrupted path text _ => some (path, text)
  | file disk path => (p.readSource disk path).toOption.map (path, ·)
  | invalidate _ _ | clear | evict _ => none

/--
What becomes of a request that does not look into the cache.
-/
def failure? (p : Provider) : Request → Option FileError
  | file disk path =>
    match p.readSource disk path with
    | .error e => some e
    | .ok _ => none
  | _ => none

/--
The entries that are lost while a request is served.
-/
def gone : Request → List Cache.Key
  | interrupted _ _ gone => gone
  | _ => []

/--
The files that are looked up in the cache, in turn.
-/
def inputs (p : Provider) (requests : List Request) : List (String × String) :=
  requests.filterMap (input? p)

section Step

variable {t : Toolchain} {p : Provider}

theorem serveInterrupted_of_find? {path text : String} {gone : List Cache.Key} {cache : Cache}
    {record : FileRecord} (hfind : cache.find? (keyOf t path text) = some record) :
    serveInterrupted t p path text gone cache = (some (.ok record), cache.evict gone) := by
  unfold serveInterrupted
  simp only [Call.advance, Call.lookup, Call.key, hfind, Call.answer?]

theorem serveInterrupted_of_error {path text : String} {gone : List Cache.Key} {cache : Cache}
    {e : FileError} (hfind : cache.find? (keyOf t path text) = none)
    (hanalyze : p.analyze t path text = .error e) :
    serveInterrupted t p path text gone cache = (some (.error e), cache.evict gone) := by
  unfold serveInterrupted
  simp only [Call.advance, Call.lookup, Call.key, hfind, hanalyze, Call.answer?]

theorem serveInterrupted_of_ok {path text : String} {gone : List Cache.Key} {cache : Cache}
    {record : FileRecord} (hfind : cache.find? (keyOf t path text) = none)
    (hanalyze : p.analyze t path text = .ok record) :
    serveInterrupted t p path text gone cache =
      (some (.ok record), (cache.evict gone).insert (keyOf t path text) record) := by
  unfold serveInterrupted
  simp only [Call.advance, Call.lookup, Call.key, hfind, hanalyze, Call.answer?]

theorem run_serve_of_input? {r : Request} {path text : String}
    (h : r.input? p = some (path, text)) (s : Session) :
    (((r.serve t p).run s).1, ((r.serve t p).run s).2.cache) =
      serveInterrupted t p path text r.gone s.cache := by
  obtain ⟨hanswer, hcache⟩ := run_normalizeSource t p path text s
  cases r with
  | source path' text' =>
    cases h
    exact Prod.ext hanswer.symm hcache.symm
  | file disk path' =>
    have hfile : (p.normalizeFile t disk path').run s = (p.normalizeSource t path text).run s := by
      unfold normalizeFile
      cases hread : p.readSource disk path' with
      | error e =>
        simp only [input?, hread] at h
        nomatch h
      | ok text' =>
        simp only [input?, hread] at h
        cases h
        rfl
    simp only [serve, StateT.run_map, hfile]
    exact Prod.ext hanswer.symm hcache.symm
  | interrupted path' text' gone =>
    cases h
    rfl
  | invalidate path' contentHash => nomatch h
  | clear => nomatch h
  | evict gone => nomatch h

theorem run_serve_of_input?_none {r : Request} (h : r.input? p = none) (s : Session) :
    ((r.serve t p).run s).1 = (r.failure? p).map .error ∧
      s.cache.ShrinksTo ((r.serve t p).run s).2.cache ∧
      ((r.failure? p).isSome → ((r.serve t p).run s).2.cache = s.cache.evict r.gone) := by
  cases r with
  | source path' text' => nomatch h
  | file disk path' =>
    cases hread : p.readSource disk path' with
    | error e =>
      have hfile : (p.normalizeFile t disk path').run s = (.error e, s) := by
        unfold normalizeFile
        rw [hread]
        rfl
      have hserve : ((file disk path').serve t p).run s = (some (.error e), s) := by
        rw [serve, StateT.run_map, hfile]
        rfl
      have hfailure : (file disk path').failure? p = some e := by
        unfold failure?
        simp only [hread]
      rw [hserve, hfailure]
      exact ⟨rfl, .refl _, fun _ => rfl⟩
    | ok text' =>
      simp only [input?, hread] at h
      nomatch h
  | interrupted path' text' gone => nomatch h
  | invalidate path' contentHash => exact ⟨rfl, s.cache.shrinksTo_erase _, nofun⟩
  | clear => exact ⟨rfl, s.cache.shrinksTo_clear, nofun⟩
  | evict gone => exact ⟨rfl, s.cache.shrinksTo_evict gone, nofun⟩

end Step

/-! Every record in the cache stems from a file that was looked up before -/

section Sound

variable {t : Toolchain} {p : Provider}

def Sound (t : Toolchain) (p : Provider) (files : List (String × String)) (cache : Cache) : Prop :=
  ∀ key record, cache.find? key = some record → StemsFrom t p files key record

theorem Sound.of_shrinksTo {files : List (String × String)} {c d : Cache}
    (hsound : Sound t p files c) (h : c.ShrinksTo d) : Sound t p files d := by
  intro key record hfind
  apply hsound
  exact h.find?_of_find? key record hfind

theorem Sound.mono {files more : List (String × String)} {c : Cache} (hfiles : files ⊆ more)
    (hsound : Sound t p files c) : Sound t p more c := by
  intro key record hfind
  exact (hsound key record hfind).mono hfiles

theorem Sound.insert {files : List (String × String)} {c : Cache} {path text : String}
    {record : FileRecord} (hsound : Sound t p files c) (hmem : (path, text) ∈ files)
    (hanalyze : p.analyze t path text = .ok record) :
    Sound t p files (c.insert (keyOf t path text) record) := by
  intro key other hfind
  rw [Cache.find?_insert] at hfind
  split at hfind
  case isTrue hkey =>
    cases hfind
    exact ⟨path, text, hmem, hkey.2.symm, hanalyze⟩
  case isFalse =>
    exact hsound key other hfind

theorem sound_serve {files : List (String × String)} {s : Session} (r : Request)
    (hsound : Sound t p files s.cache) :
    Sound t p (files ++ (r.input? p).toList) ((r.serve t p).run s).2.cache := by
  have hmore : Sound t p (files ++ (r.input? p).toList) s.cache :=
    hsound.mono (List.subset_append_left _ _)
  cases hinput : r.input? p with
  | none =>
    rw [hinput] at hmore
    exact hmore.of_shrinksTo (run_serve_of_input?_none hinput s).2.1
  | some input =>
    obtain ⟨path, text⟩ := input
    rw [hinput] at hmore
    have hmem : (path, text) ∈ files ++ (some (path, text)).toList := by simp
    have hevict := hmore.of_shrinksTo (s.cache.shrinksTo_evict r.gone)
    have hrun := congrArg Prod.snd (run_serve_of_input? (t := t) hinput s)
    simp only at hrun
    rw [hrun]
    cases hfind : s.cache.find? (keyOf t path text) with
    | some record =>
      rw [serveInterrupted_of_find? hfind]
      exact hevict
    | none =>
      cases hanalyze : p.analyze t path text with
      | error e =>
        rw [serveInterrupted_of_error hfind hanalyze]
        exact hevict
      | ok record =>
        rw [serveInterrupted_of_ok hfind hanalyze]
        exact hevict.insert hmem hanalyze

theorem sound_serveAll (requests : List Request) {files : List (String × String)} {s : Session}
    (hsound : Sound t p files s.cache) :
    Sound t p (files ++ inputs p requests) (serveAll t p requests s).cache := by
  induction requests generalizing files s with
  | nil =>
    rw [inputs, List.filterMap_nil, List.append_nil]
    exact hsound
  | cons r requests ih =>
    have hrest := ih (sound_serve r hsound)
    rw [List.append_assoc] at hrest
    have hinputs : (r.input? p).toList ++ inputs p requests = inputs p (r :: requests) := by
      unfold inputs
      cases hinput : r.input? p with
      | none => simp [hinput]
      | some input => simp [hinput]
    rw [hinputs] at hrest
    exact hrest

end Sound

/-! A provider without a cache always analyzes -/

section Uncached

variable {t : Toolchain} {p : Provider}

def IsOff (c : Cache) : Prop := c.isEnabled = false ∧ ∀ key, c.find? key = none

theorem IsOff.of_shrinksTo {c d : Cache} (hoff : IsOff c) (h : c.ShrinksTo d) : IsOff d := by
  constructor
  · rw [h.isEnabled_eq, hoff.1]
  · intro key
    rw [Option.eq_none_iff_forall_ne_some]
    intro record hfind
    have hthere := h.find?_of_find? key record hfind
    rw [hoff.2 key] at hthere
    nomatch hthere

theorem IsOff.insert {c : Cache} (hoff : IsOff c) (key : Cache.Key) (record : FileRecord) :
    IsOff (c.insert key record) := by
  constructor
  · rw [Cache.isEnabled_insert, hoff.1]
  · intro other
    rw [Cache.find?_insert, hoff.1, hoff.2 other]
    simp

theorem serveInterrupted_of_isOff {c : Cache} (hoff : IsOff c) (path text : String)
    (gone : List Cache.Key) :
    (serveInterrupted t p path text gone c).1 = some (p.analyze t path text) ∧
      IsOff (serveInterrupted t p path text gone c).2 := by
  have hevict := hoff.of_shrinksTo (c.shrinksTo_evict gone)
  cases hanalyze : p.analyze t path text with
  | error e =>
    rw [serveInterrupted_of_error (hoff.2 _) hanalyze]
    exact ⟨rfl, hevict⟩
  | ok record =>
    rw [serveInterrupted_of_ok (hoff.2 _) hanalyze]
    exact ⟨rfl, hevict.insert _ record⟩

theorem isOff_serve {s : Session} (r : Request) (hoff : IsOff s.cache) :
    IsOff ((r.serve t p).run s).2.cache := by
  cases hinput : r.input? p with
  | none => exact hoff.of_shrinksTo (run_serve_of_input?_none hinput s).2.1
  | some input =>
    have hrun := congrArg Prod.snd (run_serve_of_input? (t := t) hinput s)
    simp only at hrun
    rw [hrun]
    exact (serveInterrupted_of_isOff hoff input.1 input.2 r.gone).2

theorem isOff_serveAll (requests : List Request) {s : Session} (hoff : IsOff s.cache) :
    IsOff (serveAll t p requests s).cache := by
  induction requests generalizing s with
  | nil => exact hoff
  | cons r requests ih =>
    apply ih
    exact isOff_serve r hoff

end Uncached

/--
An answer with a cache beside the answer without one. A record may have the spelling under which one
of `files` was looked up with the same content.
-/
def Agree (t : Toolchain) (files : List (String × String)) :
    Option (Except FileError FileRecord) → Option (Except FileError FileRecord) → Prop
  | some (.ok record), some (.ok own) =>
    ∃ spelling text, (spelling, text) ∈ files ∧ t.digest text = own.contentHash ∧
      Path.components spelling = Path.components own.file ∧ record = own.inFile spelling
  | answer, own => answer = own

theorem agree_own {t : Toolchain} {p : Provider} {files : List (String × String)}
    {path text : String} (hmem : (path, text) ∈ files) :
    Agree t files (some (p.analyze t path text)) (some (p.analyze t path text)) := by
  cases hanalyze : p.analyze t path text with
  | error e => rfl
  | ok own =>
    obtain ⟨hfile, hhash⟩ := file_and_contentHash_of_analyze t p hanalyze
    exact ⟨path, text, hmem, hhash.symm, by rw [hfile], (inFile_of_analyze hanalyze).symm⟩

variable {t : Toolchain} {p : Provider}

theorem agree_serveInterrupted {files : List (String × String)} {cache : Cache}
    {path text : String} (hseparates : t.Separates files) (hmem : (path, text) ∈ files)
    (hsound : Sound t p files cache) (gone : List Cache.Key) :
    Agree t files (serveInterrupted t p path text gone cache).1
      (some (p.analyze t path text)) := by
  have hown := agree_own (t := t) (p := p) hmem
  cases hfind : cache.find? (keyOf t path text) with
  | some record =>
    obtain ⟨spelling, own, hspelling, hcomponents, hanalyze, rfl⟩ :=
      (hsound _ record hfind).exists_spelling hseparates hmem
    obtain ⟨hfile, hhash⟩ := file_and_contentHash_of_analyze t p hanalyze
    rw [serveInterrupted_of_find? hfind, hanalyze]
    exact ⟨spelling, text, hspelling, hhash.symm, by rw [hfile, hcomponents], rfl⟩
  | none =>
    cases hanalyze : p.analyze t path text with
    | error e =>
      rw [serveInterrupted_of_error hfind hanalyze]
      rfl
    | ok own =>
      rw [hanalyze] at hown
      rw [serveInterrupted_of_ok hfind hanalyze]
      exact hown

theorem serveInterrupted_error {cache : Cache} {path text : String} {gone : List Cache.Key}
    {e : FileError} (h : (serveInterrupted t p path text gone cache).1 = some (.error e)) :
    (serveInterrupted t p path text gone cache).2 = cache.evict gone := by
  cases hfind : cache.find? (keyOf t path text) with
  | some record => rw [serveInterrupted_of_find? hfind]
  | none =>
    cases hanalyze : p.analyze t path text with
    | error e' => rw [serveInterrupted_of_error hfind hanalyze]
    | ok own =>
      rw [serveInterrupted_of_ok hfind hanalyze] at h
      nomatch h

theorem agree_serve {r : Request} {files : List (String × String)} {s off : Session}
    (hseparates : t.Separates files) (hmem : ∀ input, r.input? p = some input → input ∈ files)
    (hsound : Sound t p files s.cache) (hoff : IsOff off.cache) :
    Agree t files ((r.serve t p).run s).1 ((r.serve t p.uncached).run off).1 := by
  have huncached : r.input? p.uncached = r.input? p := by
    cases r with
    | _ => rfl
  cases hinput : r.input? p with
  | none =>
    rw [hinput] at huncached
    have hfailure : r.failure? p.uncached = r.failure? p := by
      cases r with
      | _ => rfl
    rw [(run_serve_of_input?_none hinput s).1, (run_serve_of_input?_none huncached off).1, hfailure]
    cases r.failure? p with
    | none => rfl
    | some e => rfl
  | some input =>
    rw [hinput] at huncached
    have hrun := congrArg Prod.fst (run_serve_of_input? (t := t) hinput s)
    have hrunOff := congrArg Prod.fst (run_serve_of_input? (t := t) huncached off)
    simp only at hrun hrunOff
    rw [hrun, hrunOff, (serveInterrupted_of_isOff hoff _ _ _).1]
    exact agree_serveInterrupted hseparates (hmem input hinput) hsound r.gone

theorem cache_of_serve_error {r : Request} {s : Session} {e : FileError}
    (h : ((r.serve t p).run s).1 = some (.error e)) :
    ((r.serve t p).run s).2.cache = s.cache.evict r.gone := by
  cases hinput : r.input? p with
  | none =>
    obtain ⟨hanswer, -, hcache⟩ := run_serve_of_input?_none (t := t) hinput s
    apply hcache
    rw [hanswer, Option.map_eq_some_iff] at h
    obtain ⟨e', he', -⟩ := h
    rw [he']
    rfl
  | some input =>
    have hrun := run_serve_of_input? (t := t) hinput s
    have hanswer := congrArg Prod.fst hrun
    have hcache := congrArg Prod.snd hrun
    simp only at hanswer hcache
    rw [hanswer] at h
    rw [hcache]
    exact serveInterrupted_error h

/--
Whatever was asked before and whatever was lost, a provider answers like one without a cache, and a
call that fails leaves the cache as it was.
-/
theorem answers_transparent (t : Toolchain) (p : Provider) (before : List Request) (r : Request)
    (hseparates : t.Separates (inputs p (before ++ [r]))) :
    let s := serveAll t p before { cache := p.emptyCache }
    let off := serveAll t p.uncached before { cache := p.uncached.emptyCache }
    let run := (r.serve t p).run s
    Agree t (inputs p (before ++ [r])) run.1 ((r.serve t p.uncached).run off).1 ∧
      ∀ e, run.1 = some (.error e) → run.2.cache = s.cache.evict r.gone := by
  intro s off run
  have hinputs : inputs p (before ++ [r]) = inputs p before ++ inputs p [r] :=
    List.filterMap_append
  have hstart : Sound t p [] ({ cache := p.emptyCache } : Session).cache := nofun
  have hsound : Sound t p (inputs p (before ++ [r])) s.cache := by
    rw [hinputs]
    exact (sound_serveAll before hstart).mono (List.subset_append_left _ _)
  have hoff : IsOff off.cache := by
    apply isOff_serveAll
    exact ⟨rfl, fun _ => rfl⟩
  constructor
  · apply agree_serve hseparates _ hsound hoff
    intro input hinput
    rw [hinputs, List.mem_append]
    right
    simp [inputs, hinput]
  · intro e he
    exact cache_of_serve_error he

theorem respelled_answer_transparent :
    let t := lengthToolchain
    let p : Provider := ⟨{}, Language.all⟩
    let disk := ({} : Disk).write "/a/b.py" [120]
    let before : List Request :=
      [.source "/a//b.py" "x", .source "a/b.txt" "x", .source "/a/b.py" "",
        .interrupted "a/b.py" "name" [.ofPath "c.py" 4], .evict [.ofPath "a/b.py" 4]]
    let r : Request := .file disk "/a/./b.py"
    let s := serveAll t p before { cache := p.emptyCache }
    let off := serveAll t p.uncached before { cache := p.uncached.emptyCache }
    t.Separates (inputs p (before ++ [r])) ∧
      Agree t (inputs p (before ++ [r])) ((r.serve t p).run s).1
        ((r.serve t p.uncached).run off).1 ∧
      ((r.serve t p).run s).1.map (·.toOption.map (·.file)) = some (some "/a//b.py") := by
  intro t p disk before r s off
  have hseparates : t.Separates (inputs p (before ++ [r])) := by
    decide +kernel
  refine ⟨hseparates, (answers_transparent t p before r hseparates).1, ?_⟩
  decide +kernel

end Request

end Polyglot.Provider
