import Polyglot.Config.Validate
import Polyglot.Project.FileError
import Polyglot.Toml.Document

/-!
This module contains the reading of settings from a TOML text. Keys that no setting has are ignored,
and settings that are not given keep their defaults.
-/

namespace Polyglot

namespace Toml.Value

/--
The given values of a record's fields. A table has them under their names; an array has the first
ones in order, and further items do not count; a date or a time has none.
-/
def record? (names : List String) : Value → Option (List (Option Value))
  | table _ entries => some (names.map (Entries.find? entries))
  | array items => some ((List.range names.length).map (items[·]?))
  | tables members => some ((List.range names.length).map fun i => members[i]?.map (table .header))
  | datetime => some (names.map fun _ => none)
  | _ => none

/--
An integer that is not negative.
-/
def nat? : Value → Option Nat
  | integer i => if 0 ≤ i then some i.toNat else none
  | _ => none

def bool? : Value → Option Bool
  | boolean b => some b
  | _ => none

def string? : Value → Option String
  | string s => some s
  | _ => none

def strings? : Value → Option (List String)
  | array items => items.mapM string?
  | _ => none

end Toml.Value

open Toml (Value)

/--
Read a field with a default.
-/
def fieldD (default : α) (decode : Value → Option α) (field : Option Value) : Option α :=
  field.elim (some default) decode

/--
Read a field that may be left open.
-/
def openField (decode : Value → Option α) (field : Option Value) : Option (Option α) :=
  field.elim (some none) fun v => (decode v).map some

def NormalizerSettings.ofToml? (v : Value) : Option NormalizerSettings := do
  let [maxChainDepth, maxArgDepth, maxTreeDepth, maxScopeDepth, strict] ←
    v.record? ["max_chain_depth", "max_arg_depth", "max_tree_depth", "max_scope_depth", "strict"]
    | none
  let d : NormalizerSettings := {}
  return {
    maxChainDepth := ← fieldD d.maxChainDepth Value.nat? maxChainDepth,
    maxArgDepth := ← fieldD d.maxArgDepth Value.nat? maxArgDepth,
    maxTreeDepth := ← fieldD d.maxTreeDepth Value.nat? maxTreeDepth,
    maxScopeDepth := ← fieldD d.maxScopeDepth Value.nat? maxScopeDepth,
    strict := ← fieldD d.strict Value.bool? strict }

def ProviderSettings.ofToml? (v : Value) : Option ProviderSettings := do
  let [cacheCapacity, maxFileSize, threads, languages, extraIgnore, followSymlinks] ←
    v.record?
      ["cache_capacity", "max_file_size", "threads", "languages", "extra_ignore",
        "follow_symlinks"] | none
  return {
    cacheCapacity := ← openField Value.nat? cacheCapacity,
    maxFileSize := ← openField Value.nat? maxFileSize,
    threads := ← openField Value.nat? threads,
    languages := ← fieldD [] Value.strings? languages,
    extraIgnore := ← fieldD [] Value.strings? extraIgnore,
    followSymlinks := ← openField Value.bool? followSymlinks }

def Settings.ofEntries? (entries : Toml.Entries) : Option Settings := do
  return {
    normalizer := ← fieldD {} NormalizerSettings.ofToml? (entries.find? "normalizer"),
    provider := ← fieldD {} ProviderSettings.ofToml? (entries.find? "provider") }

/--
Why settings could not be had.
-/
inductive SettingsError where
  | unreadable (path : String) (cause : ReadError)
  /-- The text is not TOML, or a value has the wrong type. -/
  | malformed
  | invalid (cause : InvalidSetting)
deriving DecidableEq, Repr

namespace SettingsError

/--
A stable name for the kind of error.
-/
def code : SettingsError → String
  | unreadable _ _ => "IO_ERROR"
  | malformed => "CONFIG_PARSE_ERROR"
  | invalid _ => "CONFIG_INVALID"

def message : SettingsError → String
  | unreadable path cause => "IO error reading config " ++ path ++ ": " ++ cause.message
  | malformed => "TOML parse error"
  | invalid cause => cause.message

end SettingsError

def Settings.ofText (text : String) : Except SettingsError Settings :=
  match (Toml.parse? text).bind ofEntries? with
  | none => throw .malformed
  | some settings =>
    match settings.validate with
    | .error cause => throw (.invalid cause)
    | .ok () => return settings

end Polyglot
