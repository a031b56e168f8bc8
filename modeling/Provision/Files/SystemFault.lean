/-! What a file system answers when it refuses.

Each refusal has the system's wording and number, except for the two that never
reach the system: a name with a NUL in it and contents that are not text. -/
namespace Provision.Files

inductive SystemFault where
  | notFound
  | alreadyExists
  | notDirectory
  | isDirectory
  | nameTooLong
  | tooManyLinks
  | nulInName
  | notText
  | unexplained (text : String)
  deriving DecidableEq, Repr

def SystemFault.message : SystemFault → String
  | .notFound => "No such file or directory (os error 2)"
  | .alreadyExists => "File exists (os error 17)"
  | .notDirectory => "Not a directory (os error 20)"
  | .isDirectory => "Is a directory (os error 21)"
  | .nameTooLong => "File name too long (os error 36)"
  | .tooManyLinks => "Too many levels of symbolic links (os error 40)"
  | .nulInName => "file name contained an unexpected NUL byte"
  | .notText => "stream did not contain valid UTF-8"
  | .unexplained text => text

end Provision.Files
