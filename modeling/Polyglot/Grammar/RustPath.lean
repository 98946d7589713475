import Polyglot.Grammar.Rust

/-!
This module contains paths such as `crate::a::B` as text: their segments, and how a path that is
written inside a module is resolved from the root of the file.
-/

namespace Polyglot.Rust

/--
The segments of a path, split at each separator from left to right.
-/
def segments (path : String) : List String :=
  (go [] path.toList).map String.ofList
where
  go (current : List Char) : List Char → List (List Char)
    | [] => [current.reverse]
    | ':' :: ':' :: rest => current.reverse :: go [] rest
    | c :: rest => go (c :: current) rest

/--
What follows the last separator of a path.
-/
def lastSegment (path : String) : String :=
  String.ofList (go [] path.toList.reverse)
where
  go (tail : List Char) : List Char → List Char
    | [] => tail
    | ':' :: ':' :: _ => tail
    | c :: rest => go (c :: tail) rest

/--
Go up one module for each leading `super`.
-/
def climb : (modules path : List String) → List String
  | modules, "super" :: path => climb modules.dropLast path
  | modules, path => modules ++ path

/--
The path from the root of the file of a type that is written as `path` inside `modules`.
-/
def resolve (modules : List String) (path : String) : String :=
  String.intercalate separator <|
    match segments path with
    | "crate" :: rest => climb [] rest
    | "self" :: rest => climb modules rest
    | path => climb modules path

/--
Join two paths, either of which may be empty.
-/
def joinPath (outer path : String) : String :=
  if outer = "" then path
  else if path = "" then outer
  else outer ++ separator ++ path

end Polyglot.Rust
