import Polyglot.Path

/-!
This module contains the supported languages and how a file's language is told from its path.
-/

namespace Polyglot

inductive Language where
  | rust
  | typescript
  | javascript
  | python
deriving DecidableEq, Repr, Hashable

namespace Language

def all : List Language := [rust, typescript, javascript, python]

def name : Language → String
  | rust => "rust"
  | typescript => "typescript"
  | javascript => "javascript"
  | python => "python"

def extensions : Language → List String
  | rust => ["rs"]
  | typescript => ["ts", "tsx", "mts", "cts"]
  | javascript => ["js", "jsx", "mjs", "cjs"]
  | python => ["py", "pyi"]

/--
The names under which a language may be configured, in lower case.
-/
def aliases : Language → List String
  | rust => ["rust"]
  | typescript => ["typescript", "ts"]
  | javascript => ["javascript", "js"]
  | python => ["python", "py"]

/--
The language of an extension. Extensions are case sensitive.
-/
def ofExtension? (extension : String) : Option Language :=
  all.find? (·.extensions.contains extension)

def ofPath? (path : String) : Option Language :=
  (Path.extension? path).bind ofExtension?

/--
The language of a configured name. Names are not case sensitive.
-/
def ofName? (name : String) : Option Language :=
  all.find? (·.aliases.contains name.toLower)

end Language

/--
The grammars that a text can be parsed with. TypeScript has two: one of them with embedded markup.
-/
inductive Dialect where
  | plain (language : Language)
  | tsx
deriving DecidableEq, Repr, Hashable

def Dialect.ofPath (language : Language) (path : String) : Dialect :=
  if language = .typescript ∧ Path.extension? path = some "tsx" then .tsx else .plain language

end Polyglot
