import Polyglot.Config.Settings
import Polyglot.Language
import Polyglot.Text.Display

/-!
This module contains what is wrong with settings that are well formed, and the checks for it.
-/

namespace Polyglot

/--
A setting with a value that makes no sense.
-/
inductive InvalidSetting where
  /-- A limit is zero, so that nothing would be extracted. -/
  | zeroLimit (field : String)
  | unknownLanguage (name : String)
  /-- An ignore pattern is malformed. -/
  | badPattern (pattern reason : String)
  /-- Ignore patterns cannot be used together. -/
  | badPatterns (reason : String)
deriving DecidableEq, Repr

namespace InvalidSetting

def field : InvalidSetting → String
  | zeroLimit field => field
  | unknownLanguage _ => "provider.languages"
  | badPattern _ _ | badPatterns _ => "provider.extra_ignore"

/--
What is wrong with the value.
-/
def reason : InvalidSetting → String
  | zeroLimit _ => "must be greater than zero"
  | unknownLanguage name => "unknown language " ++ Text.display name
  | badPattern pattern reason => "bad pattern " ++ Text.display pattern ++ ": " ++ reason
  | badPatterns reason => reason

def message (e : InvalidSetting) : String :=
  "Invalid config value for `" ++ e.field ++ "`: " ++ e.reason

end InvalidSetting

namespace Settings

/--
The limits that must not be zero, in the order in which they are checked.
-/
def positiveLimits (s : Settings) : List (String × Nat) :=
  [("normalizer.max_chain_depth", s.normalizer.maxChainDepth),
    ("normalizer.max_arg_depth", s.normalizer.maxArgDepth),
    ("normalizer.max_tree_depth", s.normalizer.maxTreeDepth),
    ("normalizer.max_scope_depth", s.normalizer.maxScopeDepth),
    ("provider.max_file_size", s.provider.effectiveMaxFileSize)]

def validate (s : Settings) : Except InvalidSetting Unit :=
  match s.positiveLimits.find? (·.2 == 0) with
  | some (field, _) => throw (.zeroLimit field)
  | none => return ()

/--
The enabled languages, all of them if none is named.
-/
def enabledLanguages (s : Settings) : Except InvalidSetting (List Language) := do
  let languages ← s.provider.languages.mapM fun name =>
    match Language.ofName? name with
    | some language => pure language
    | none => throw (.unknownLanguage name)
  return if languages.isEmpty then Language.all else languages

end Settings

end Polyglot
