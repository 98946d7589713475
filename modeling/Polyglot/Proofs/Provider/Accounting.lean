import Mathlib.Algebra.BigOperators.Group.List.Basic
import Mathlib.Algebra.Order.Ring.Nat
import Polyglot.Proofs.Counters
import Polyglot.Proofs.Lists
import Polyglot.Proofs.Provider.Scheduling

/-!
This module contains the accounts of a project. Every source text that is handed in has one result:
a record, a failure, or neither if no enabled language reads its path. The project has the records
and the failures in the order of their names, and its statistics are the sums over its files, those
of fallbacks as far as they fit into words.
-/

namespace Polyglot

namespace ProjectRecord

/--
Whether the result for a file is that it was never meant to be processed.
-/
def isSkip : Except FileError FileRecord → Bool
  | .ok _ => false
  | .error e => e.isSkip

/--
The records among results, in order.
-/
def records (results : List (String × Except FileError FileRecord)) : List FileRecord :=
  results.flatMap (·.2.toOption.toList)

/--
The failure that a result is, if it is one.
-/
def failure? (result : String × Except FileError FileRecord) : Option FileFailure :=
  match result.2 with
  | .ok _ => none
  | .error e => if e.isSkip then none else some ⟨result.1, e.code, e.message⟩

/--
The fallbacks of all files of a project.
-/
def fallbackSums (p : ProjectRecord) : Fallbacks :=
  (p.files.map fun file => file.fallbacks.counts).sum

/--
The counts of a project agree with its files and failures.
-/
structure IsBalanced (p : ProjectRecord) : Prop where
  filesNormalized : p.stats.filesNormalized = p.files.length
  filesFailed : p.stats.filesFailed = p.failures.length
  callChains : p.stats.callChains = (p.files.map (·.callChains.length)).sum
  functions : p.stats.functions = (p.files.map (·.functions.length)).sum
  classes : p.stats.classes = (p.files.map (·.classes.length)).sum
  imports : p.stats.imports = (p.files.map (·.imports.length)).sum
  exports : p.stats.exports = (p.files.map (·.exports.length)).sum
  fallbacks : p.stats.fallbacks = p.fallbackSums.counters

namespace IsBalanced

variable {p : ProjectRecord} (h : p.IsBalanced)

include h

theorem add (path : String) (result : Except FileError FileRecord) :
    (p.add path result).IsBalanced := by
  obtain ⟨hnormalized, hfailed, hchains, hfunctions, hclasses, himports, hexports, hfallbacks⟩ := h
  cases result with
  | ok record =>
    constructor
    case filesFailed => exact hfailed
    case fallbacks =>
      simp only [ProjectRecord.add, ProjectStats.add, hfallbacks, fallbackSums, List.map_append,
        List.map_cons, List.map_nil, List.sum_append, List.sum_singleton, Fallbacks.counters_add,
        Fallbacks.counters_counts]
    all_goals simp [ProjectRecord.add, ProjectStats.add, *]
  | error e =>
    by_cases hskip : e.isSkip
    · simp only [ProjectRecord.add, if_pos hskip]
      constructor
      all_goals assumption
    · simp only [ProjectRecord.add, if_neg hskip]
      constructor
      case filesFailed => simp [hfailed]
      all_goals assumption

theorem addAll (results : List (String × Except FileError FileRecord)) :
    (p.addAll results).IsBalanced := by
  induction results generalizing p with
  | nil => exact h
  | cons result results ih => exact ih (h.add result.1 result.2)

theorem sort : p.sort.IsBalanced := by
  have hfiles := List.mergeSort_perm p.files fun a b => a.file ≤ b.file
  constructor
  case filesNormalized => exact h.filesNormalized.trans hfiles.length_eq.symm
  case filesFailed => exact h.filesFailed.trans (List.length_mergeSort _).symm
  case callChains => exact h.callChains.trans (hfiles.map _).sum_eq.symm
  case functions => exact h.functions.trans (hfiles.map _).sum_eq.symm
  case classes => exact h.classes.trans (hfiles.map _).sum_eq.symm
  case imports => exact h.imports.trans (hfiles.map _).sum_eq.symm
  case exports => exact h.exports.trans (hfiles.map _).sum_eq.symm
  case fallbacks => exact h.fallbacks.trans (congrArg _ (hfiles.map _).sum_eq.symm)

end IsBalanced

end ProjectRecord

namespace Provider

variable {t : Toolchain} {p : Provider}

/-! The result for a file -/

theorem detectLanguage_eq_ok_iff {path : String} {language : Language} :
    p.detectLanguage path = .ok language ↔
      Language.ofPath? path = some language ∧ language ∈ p.languages := by
  rw [← List.contains_iff_mem, ← Option.filter_eq_some_iff]
  unfold detectLanguage
  cases (Language.ofPath? path).filter p.languages.contains with
  | none =>
    constructor
    · intro h
      cases h
    · intro h
      cases h
  | some found =>
    constructor
    · intro h
      rw [Except.ok.inj h]
    · intro h
      rw [Option.some.inj h]
      rfl

/--
Whether no enabled language reads the path.
-/
def IsUnread (p : Provider) (path : String) : Prop :=
  ∀ language, Language.ofPath? path = some language → language ∉ p.languages

theorem isUnread_iff {path : String} :
    p.IsUnread path ↔ ∀ language, p.detectLanguage path ≠ .ok language := by
  simp only [IsUnread, ne_eq, detectLanguage_eq_ok_iff, not_and]

theorem isSkip_of_parse {language : Language} {path source : String} {e : FileError}
    (h : t.parse language path source = .error e) : e.isSkip = false := by
  unfold Toolchain.parse at h
  dsimp only at h
  split at h
  case isTrue =>
    split at h
    case h_1 => nomatch h
    case h_2 =>
      cases h
      rfl
  case isFalse =>
    cases h
    rfl

/--
The analysis of a file fails with an error that is no failure exactly if no enabled language reads
its path. Otherwise it is the parser that fails.
-/
theorem isSkip_iff_of_analyze {path source : String} {e : FileError}
    (h : p.analyze t path source = .error e) : e.isSkip ↔ p.IsUnread path := by
  rw [isUnread_iff]
  unfold analyze at h
  cases hlanguage : p.detectLanguage path with
  | error e' =>
    rw [hlanguage] at h
    cases h
    have hskip : e.isSkip := by
      unfold detectLanguage at hlanguage
      split at hlanguage
      case h_1 => nomatch hlanguage
      case h_2 =>
        cases hlanguage
        rfl
    exact iff_of_true hskip nofun
  | ok language =>
    cases hparse : t.parse language path source with
    | ok tree =>
      simp only [hlanguage, hparse, bind, Except.bind] at h
      nomatch h
    | error e' =>
      simp only [hlanguage, hparse, bind, Except.bind] at h
      cases h
      rw [isSkip_of_parse hparse]
      simp

end Provider

end Polyglot
