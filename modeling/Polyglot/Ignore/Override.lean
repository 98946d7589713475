import Polyglot.Ignore.Rule

/-!
This module contains overrides: patterns that come before all ignore files.
-/

namespace Polyglot.Ignore

/--
Read an override. Here a bracket has to be closed.
-/
def override? (text : String) : Except GlobError (Option Rule) := Rule.ofLine? false text.toList

/--
The rules of those overrides that can be read.
-/
def overrideRules (texts : List String) : List Rule :=
  texts.filterMap fun text => (override? text).toOption.bind id

/--
What overrides say. Marks of negation work the other way round here: a negated rule leaves out what
it matches, and any other one keeps it. As soon as one rule keeps something, files that no rule
matches are left out.
-/
def precedence? (rules : List Rule) (path : Bytes) (isDirectory : Bool) : Option Verdict :=
  match verdict? rules path isDirectory with
  | some verdict => some verdict.opposite
  | none => if !isDirectory && rules.any (!·.isNegated) then some .ignore else none

end Polyglot.Ignore
