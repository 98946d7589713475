/-!
This module contains the errors that keep a file from being processed. What is extracted from a file
once it is parsed never fails.
-/

namespace Polyglot

/--
Why reading a file failed.
-/
inductive ReadError where
  | notFound
  | notDirectory
  | isDirectory
  | tooManyLinks
  | nameTooLong
  | nulInName
  | invalidText
  | other (text : String)
deriving DecidableEq, Repr

def ReadError.message : ReadError → String
  | notFound => "No such file or directory (os error 2)"
  | notDirectory => "Not a directory (os error 20)"
  | isDirectory => "Is a directory (os error 21)"
  | tooManyLinks => "Too many levels of symbolic links (os error 40)"
  | nameTooLong => "File name too long (os error 36)"
  | nulInName => "file name contained an unexpected NUL byte"
  | invalidText => "stream did not contain valid UTF-8"
  | other text => text

inductive FileError where
  /-- No enabled language has the extension. -/
  | unsupportedLanguage (extension : String)
  | grammarNotFound (language : String)
  | parseFailed (path message : String)
  | tooLarge (path : String) (size limit : Nat)
  | unreadable (path : String) (cause : ReadError)
deriving DecidableEq, Repr

namespace FileError

/--
A stable name for the kind of error.
-/
def code : FileError → String
  | unsupportedLanguage _ => "UNSUPPORTED_LANGUAGE"
  | grammarNotFound _ => "GRAMMAR_NOT_FOUND"
  | parseFailed _ _ => "PARSE_FAILED"
  | tooLarge _ _ _ => "FILE_TOO_LARGE"
  | unreadable _ _ => "IO_ERROR"

def message : FileError → String
  | unsupportedLanguage extension => "Unsupported language for extension: " ++ extension
  | grammarNotFound language => "Grammar not available for " ++ language
  | parseFailed path message => "tree-sitter failed on " ++ path ++ ": " ++ message
  | tooLarge path size limit =>
    "File too large: " ++ path ++ " is " ++ toString size ++ " bytes (limit " ++ toString limit
      ++ ")"
  | unreadable path cause => "IO error reading " ++ path ++ ": " ++ cause.message

/--
Whether the file was never meant to be processed, so that the error is no failure.
-/
def isSkip : FileError → Bool
  | unsupportedLanguage _ | tooLarge _ _ _ => true
  | _ => false

end FileError

end Polyglot
