import Polyglot.Project.Provider
import Polyglot.Project.Walker

/-!
This module contains the processing of files on disk, of sets of source texts and of whole
directories.
-/

namespace Polyglot

/-! Records of projects -/

/--
Count a processed file.
-/
def ProjectStats.add (s : ProjectStats) (r : FileRecord) : ProjectStats :=
  { s with
    filesNormalized := s.filesNormalized + 1
    callChains := s.callChains + r.callChains.length
    functions := s.functions + r.functions.length
    classes := s.classes + r.classes.length
    imports := s.imports + r.imports.length
    exports := s.exports + r.exports.length
    fallbacks := s.fallbacks + r.fallbacks }

namespace ProjectRecord

/--
Add the result for a file. A file that was never meant to be processed is only counted.
-/
def add (p : ProjectRecord) (path : String) : Except FileError FileRecord → ProjectRecord
  | .ok record => { p with files := p.files ++ [record], stats := p.stats.add record }
  | .error e =>
    if e.isSkip then { p with stats := { p.stats with filesSkipped := p.stats.filesSkipped + 1 } }
    else
      { p with
        failures := p.failures ++ [{ file := path, errorCode := e.code, message := e.message }]
        stats := { p.stats with filesFailed := p.stats.filesFailed + 1 } }

/--
Order files and failures by their names.
-/
def sort (p : ProjectRecord) : ProjectRecord :=
  { p with
    files := p.files.mergeSort fun a b => a.file ≤ b.file
    failures := p.failures.mergeSort fun a b => a.file ≤ b.file }

def ofResults (results : List (String × Except FileError FileRecord)) : ProjectRecord :=
  sort (results.foldl (fun (p : ProjectRecord) (path, result) => p.add path result) {})

end ProjectRecord

namespace Provider

/--
The record of a set of results, with a warning for every failure.
-/
def collect (results : List (String × Except FileError FileRecord)) : SessionM ProjectRecord := do
  for (path, result) in results do
    if let .error e := result then
      unless e.isSkip do SessionM.warn (.fileFailed path)
  return .ofResults results

/--
Process source texts.
-/
def normalizeFiles (t : Toolchain) (p : Provider) (sources : List (String × String)) :
    SessionM ProjectRecord := do
  let results ← sources.mapM fun (path, source) => do
    return (path, ← p.normalizeSource t path source)
  collect results

/--
Read a file that is to be processed. The language is checked before anything is read, and the size
before the content.
-/
def readSource (p : Provider) (disk : Disk) (path : String) : Except FileError String := do
  let _ ← p.detectLanguage path
  let limit := p.settings.provider.effectiveMaxFileSize
  let item ← (disk.itemNamed path).mapError (.unreadable path)
  if limit < item.size then throw (.tooLarge path item.size limit)
  (disk.readText path).mapError (.unreadable path)

def normalizeFile (t : Toolchain) (p : Provider) (disk : Disk) (path : String) :
    SessionM (Except FileError FileRecord) := do
  match p.readSource disk path with
  | .error e => return .error e
  | .ok source => p.normalizeSource t path source

/--
The file that was come across, if there is a language that reads it.
-/
def foundFile? (p : Provider) (entry : Entry) : Option FoundFile :=
  if entry.kind = .file then
    (p.detectLanguage entry.path).toOption.map fun language =>
      { path := entry.path, size := entry.size.getD 0, language }
  else none

/--
The search below a root with the settings of a provider.
-/
def search (p : Provider) (disk : Disk) (root : String) : FileSearch where
  disk
  root
  followLinks := p.settings.provider.effectiveFollowSymlinks
  maxSize := p.settings.provider.effectiveMaxFileSize

/--
The files among what was come across, in the order of their paths.
-/
def filesAmong (p : Provider) (entries : List (Option Entry)) : List FoundFile :=
  ((entries.filterMap id).filterMap p.foundFile?).mergeSort
    fun a b => Path.compare a.path b.path != .gt

/--
The files below a root, with a warning for everything that could not be listed.
-/
def discover (w : Walker) (p : Provider) (disk : Disk) (root : String) :
    SessionM (Except InvalidSetting (List FoundFile)) := do
  match w.overrides p.settings.provider.extraIgnore with
  | .error e => return .error e
  | .ok overrides =>
    let entries := w.entries (p.search disk root) overrides
    for entry in entries do
      if entry.isNone then SessionM.warn .walkFailed
    return .ok (p.filesAmong entries)

/--
Process the files below a root.
-/
def normalizeDirectory (t : Toolchain) (w : Walker) (p : Provider) (disk : Disk) (root : String) :
    SessionM (Except InvalidSetting ProjectRecord) := do
  match ← p.discover w disk root with
  | .error e => return .error e
  | .ok files =>
    let results ← files.mapM fun file => do
      return (file.path, ← p.normalizeFile t disk file.path)
    return .ok (← collect results)

end Provider

end Polyglot
