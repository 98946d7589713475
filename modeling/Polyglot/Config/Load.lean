import Polyglot.Config.Decode
import Polyglot.Project.Disk

/-!
This module contains the reading of settings from a file.
-/

namespace Polyglot

/--
The settings in a file. Without the file the defaults hold.
-/
def Settings.load (disk : Disk) (path : String) : Except SettingsError Settings :=
  match disk.readText path with
  | .ok text => Settings.ofText text
  | .error .notFound => return {}
  | .error cause => throw (.unreadable path cause)

end Polyglot
