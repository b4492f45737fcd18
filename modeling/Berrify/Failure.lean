import Berrify.Refusal

/-!
# Failures

`Failure` lists what may go wrong between a file of source and a file of target. `Failure.kind` is
its short name in reports and `Failure.message` its text. `Failure.stated?` is the text where it
names a rule of this library, which it does not for a text that follows no grammar.
-/

namespace Berrify

/-- Why the file system refuses something. -/
inductive AccessError where
  | notFound
  | isDirectory
  | notDirectory
  | notText
  | isInput
deriving DecidableEq, Repr

/-- The text of a reason. -/
def AccessError.message : AccessError → String
  | notFound => "No such file or directory (os error 2)"
  | isDirectory => "Is a directory (os error 21)"
  | notDirectory => "Not a directory (os error 20)"
  | notText => "stream did not contain valid UTF-8"
  | isInput => "output path is the input file"

/-- What is wrong with a settings file. -/
inductive SettingsError where
  /-- The text is not in the format, or a value has the wrong type. -/
  | malformed
  | badExtension (extension : String)
deriving DecidableEq, Repr

/-- What may go wrong. -/
inductive Failure where
  /-- The script holds something without a counterpart. -/
  | refused (refusal : Refusal)
  /-- The script follows no rule of the grammar. -/
  | unreadable
  | access (path : String) (error : AccessError)
  /-- A directory to be searched cannot be entered. -/
  | search (path : String) (error : AccessError)
  | settings (path : String) (error : SettingsError)
deriving DecidableEq, Repr

namespace Failure

/-- The short name in reports. -/
def kind : Failure → String
  | refused r => if r.cause.construct?.isSome then "unsupported-construct" else "malformed-target"
  | unreadable => "parse"
  | access _ _ => "io"
  | search _ _ => "io"
  | settings _ _ => "config"

/-- The text, except for texts that follow no grammar. -/
def stated? : Failure → Option String
  | refused r => some r.message
  | unreadable => none
  | access path error => some ("cannot access " ++ path ++ ": " ++ error.message)
  | search path error =>
    some ("cannot access " ++ path ++ ": IO error for operation on " ++ path ++ ": " ++
      error.message)
  | settings _ .malformed => none
  | settings path (.badExtension extension) =>
    some ("invalid config " ++ path ++ ": invalid output extension `" ++ extension ++ "`")

/-- The text. -/
def message (f : Failure) : String :=
  f.stated?.getD (match f with
    | settings path _ => "invalid config " ++ path ++ ": malformed text"
    | _ => "syntax error")

end Failure

end Berrify
