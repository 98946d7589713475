import Polyglot.Config.Validate
import Polyglot.Extract.Facts
import Polyglot.Project.Cache
import Polyglot.Project.FileError
import Polyglot.Project.Warning

/-!
This module contains the provider of file records: it tells the language of a source text from its
path, has the text parsed, extracts the record and keeps it in a cache.
-/

namespace Polyglot

/--
What a provider takes from elsewhere: a parser, which may lack a grammar or give up on a text, and a
hash of contents.
-/
structure Toolchain where
  hasGrammar : Dialect → Bool := fun _ => true
  parse? : Dialect → String → Option Tree
  digest : String → UInt64

/--
The tree of a source text. The path tells the dialect of the language.
-/
def Toolchain.parse (t : Toolchain) (language : Language) (path source : String) :
    Except FileError Tree :=
  let dialect := Dialect.ofPath language path
  if t.hasGrammar dialect then
    match t.parse? dialect source with
    | some tree => return tree
    | none => throw (.parseFailed path "tree-sitter returned no tree")
  else throw (.grammarNotFound language.name)

/--
The settings of a provider with the languages that they enable.
-/
structure Provider where
  settings : Settings
  languages : List Language

/--
What a provider leaves behind while it works: the state of its cache and the warnings it gave.
-/
structure Session where
  cache : Cache
  warnings : List Warning := []

abbrev SessionM := StateM Session

def SessionM.warn (w : Warning) : SessionM Unit :=
  modify fun s => { s with warnings := s.warnings ++ [w] }

namespace Provider

def ofSettings (settings : Settings) : Except InvalidSetting Provider := do
  settings.validate
  return { settings, languages := ← settings.enabledLanguages }

/--
The cache that a provider begins with.
-/
def emptyCache (p : Provider) : Cache :=
  { capacity := p.settings.provider.effectiveCacheCapacity }

/--
The language of a path, if it is enabled.
-/
def detectLanguage (p : Provider) (path : String) : Except FileError Language :=
  match (Language.ofPath? path).filter p.languages.contains with
  | some language => return language
  | none => throw (.unsupportedLanguage ((Path.extension? path).getD "unknown"))

/--
The record of a source text, without regard to the cache.
-/
def analyze (t : Toolchain) (p : Provider) (path source : String) :
    Except FileError FileRecord := do
  let language ← p.detectLanguage path
  let tree ← t.parse language path source
  let root := Node.root (.ofString source) tree
  let facts := Facts.ofTree language ⟨path, p.settings.normalizer.toLimits⟩ root
  return { facts.toContents with
    file := path, language, contentHash := t.digest source,
    fallbacks := facts.fallbacks.counters, hasParseErrors := root.hasError }

/--
The record of a source text, from the cache if it is there. A record from the cache gives no
warning, and it keeps the spelling of the path under which it was stored.
-/
def normalizeSource (t : Toolchain) (p : Provider) (path source : String) :
    SessionM (Except FileError FileRecord) := do
  let key := Cache.Key.ofPath path (t.digest source)
  if let some record := (← get).cache.find? key then
    return .ok record
  match p.analyze t path source with
  | .error e => return .error e
  | .ok record =>
    if p.settings.normalizer.strict && !record.fallbacks.isClean then
      SessionM.warn (.fellBack path)
    modify fun s => { s with cache := s.cache.insert key record }
    return .ok record

end Provider

end Polyglot
