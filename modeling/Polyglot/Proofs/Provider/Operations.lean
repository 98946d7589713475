import Polyglot.Proofs.Provider.Transparency
import Polyglot.Proofs.Provider.Workers

/-!
This module contains the states that the cache of a provider can be in. Whatever the provider has
done before, each record in its cache stems from a file that was looked up, and it answers for a
file like the analysis of the file itself, up to the spelling of the path.
-/

namespace Polyglot.Provider

variable {t : Toolchain} {p : Provider}

/--
What changes the cache of a provider: a request, or a set of files whose calls run side by side for
some time.
-/
inductive Operation where
  | request (r : Request)
  | files (sources : List (String × String)) (schedule : List Workers.Step)

namespace Operation

def apply (t : Toolchain) (p : Provider) (cache : Cache) : Operation → Cache
  | request r => ((r.serve t p).run { cache }).2.cache
  | files sources schedule => ((Workers.start sources cache).run t p schedule).cache

/--
The files that are looked up in the cache.
-/
def lookups (p : Provider) : Operation → List (String × String)
  | request r => (r.input? p).toList
  | files sources _ => sources

def applyAll (t : Toolchain) (p : Provider) (operations : List Operation) (cache : Cache) : Cache :=
  operations.foldl (apply t p) cache

theorem sound_apply {known : List (String × String)} {cache : Cache}
    (h : Request.Sound t p known cache) (operation : Operation) :
    Request.Sound t p (known ++ operation.lookups p) (operation.apply t p cache) := by
  cases operation with
  | request r => exact Request.sound_serve r h
  | files sources schedule =>
    have hinvariant := Workers.invariant_run (Workers.fits_true schedule)
      (Workers.invariant_start t p sources cache true)
    intro key record hfind
    obtain hstored | ⟨-, -, hstems⟩ := hinvariant.cache.stems key record hfind
    · exact (h key record hstored).mono (List.subset_append_left _ _)
    · exact hstems.mono (List.subset_append_right _ _)

theorem sound_applyAll (operations : List Operation) {known : List (String × String)}
    {cache : Cache} (h : Request.Sound t p known cache) :
    Request.Sound t p (known ++ operations.flatMap (lookups p))
      (applyAll t p operations cache) := by
  induction operations generalizing known cache with
  | nil =>
    rw [List.flatMap_nil, List.append_nil]
    exact h
  | cons operation operations ih =>
    rw [List.flatMap_cons, ← List.append_assoc]
    exact ih (sound_apply h operation)

variable (t p) in
/--
Every state of a provider is sound.
-/
theorem sound_reached (before : List Operation) :
    Request.Sound t p (before.flatMap (lookups p)) (applyAll t p before p.emptyCache) :=
  have hempty : Request.Sound t p [] p.emptyCache := nofun
  sound_applyAll before hempty

end Operation

namespace Workers

section Agreement

variable {known sources : List (String × String)} {cache : Cache} {mayLose : Bool}
  (hsound : Request.Sound t p known cache)

include hsound

theorem MayAnswer.stems {file : String × String} (hfile : file ∈ sources)
    {record : FileRecord} (h : MayAnswer t p sources cache mayLose file (.ok record)) :
    StemsFrom t p (known ++ sources) (keyOf t file.1 file.2) record := by
  generalize hanswer : Except.ok record = answer at h
  cases h with
  | stored stored hstored =>
    cases hanswer
    exact (hsound _ _ hstored).mono (List.subset_append_left _ _)
  | shared shared _ _ hstems =>
    cases hanswer
    exact hstems.mono (List.subset_append_right _ _)
  | own =>
    exact ⟨file.1, file.2, List.mem_append_right _ hfile, rfl, hanswer.symm⟩

omit hsound in
theorem MayAnswer.eq_error {file : String × String} {e : FileError}
    (h : MayAnswer t p sources cache mayLose file (.error e)) :
    p.analyze t file.1 file.2 = .error e := by
  generalize hanswer : Except.error e = answer at h ⊢
  cases h with
  | stored => nomatch hanswer
  | shared => nomatch hanswer
  | own => rfl

variable (hseparates : t.Separates (known ++ sources))

include hseparates

/--
An answer is the own one of the file under another spelling of its path.
-/
theorem MayAnswer.exists_spelling {file : String × String} (hfile : file ∈ sources)
    {record : FileRecord} (h : MayAnswer t p sources cache mayLose file (.ok record)) :
    ∃ own, p.analyze t file.1 file.2 = .ok own ∧
      Path.components record.file = Path.components file.1 ∧ record = own.inFile record.file := by
  obtain ⟨spelling, own, -, hcomponents, hanalyze, rfl⟩ :=
    (h.stems hsound hfile).exists_spelling hseparates (List.mem_append_right known hfile)
  exact ⟨own, hanalyze, hcomponents, rfl⟩

theorem MayAnswer.unspelled_eq {file : String × String} (hfile : file ∈ sources)
    {answer : Except FileError FileRecord}
    (h : MayAnswer t p sources cache mayLose file answer) :
    answer.map FileRecord.unspelled =
      (p.analyze t file.1 file.2).map FileRecord.unspelled := by
  cases answer with
  | error e => rw [h.eq_error]
  | ok record =>
    obtain ⟨own, hanalyze, hcomponents, hrecord⟩ := h.exists_spelling hsound hseparates hfile
    have hown := (file_and_contentHash_of_analyze t p hanalyze).1
    rw [hanalyze]
    simp only [Except.map, FileRecord.unspelled, hown, hcomponents]
    rw [hrecord, FileRecord.inFile_inFile]

end Agreement

end Workers

end Polyglot.Provider
