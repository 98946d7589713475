/-!
This module contains the warnings that processing a project may give.
-/

namespace Polyglot

inductive Warning where
  /-- Strict settings ask for a warning of files that needed a fallback. -/
  | fellBack (file : String)
  | fileFailed (file : String)
  /-- Something below a root could not be listed. -/
  | walkFailed
deriving DecidableEq, Repr

namespace Warning

/--
The file that a warning is about, if it is about one.
-/
def file? : Warning → Option String
  | fellBack file | fileFailed file => some file
  | walkFailed => none

def message : Warning → String
  | fellBack _ => "normalization fell back"
  | fileFailed _ => "file failed to normalize"
  | walkFailed => "walk error, entry skipped"

end Warning

end Polyglot
