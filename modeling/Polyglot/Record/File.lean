import Polyglot.Language
import Polyglot.Record.CallChain
import Polyglot.Record.Declaration
import Polyglot.Record.Fallbacks
import Polyglot.Record.Linkage

/-!
This module contains the records of whole files and of projects.
-/

namespace Polyglot

/--
What is read off one syntax tree.
-/
structure Contents where
  callChains : List CallChain := []
  functions : List FunctionDecl := []
  classes : List ClassDecl := []
  imports : List ImportDecl := []
  exports : List ExportDecl := []
deriving Repr, Inhabited

/--
The contents of one syntax tree, with the fallbacks on the way.
-/
structure Facts extends Contents where
  fallbacks : Fallbacks := {}
deriving Repr, Inhabited

/--
The contents of one file with the file's name, language and content hash.
-/
structure FileRecord extends Contents where
  file : String
  language : Language
  contentHash : UInt64
  fallbacks : FallbackCounters := {}
  hasParseErrors : Bool := false
deriving Repr

def FileRecord.empty (file : String) (language : Language) (contentHash : UInt64) : FileRecord :=
  { file, language, contentHash }

/--
A file that could not be processed, with the code and the text of the error.
-/
structure FileFailure where
  file : String
  errorCode : String
  message : String
deriving DecidableEq, Repr

structure ProjectStats where
  filesNormalized : Nat := 0
  filesFailed : Nat := 0
  filesSkipped : Nat := 0
  callChains : Nat := 0
  functions : Nat := 0
  classes : Nat := 0
  imports : Nat := 0
  exports : Nat := 0
  fallbacks : FallbackCounters := {}
  durationMs : Nat := 0
deriving DecidableEq, Repr

/--
The results of a set of files.
-/
structure ProjectRecord where
  files : List FileRecord := []
  failures : List FileFailure := []
  stats : ProjectStats := {}
deriving Repr

end Polyglot
