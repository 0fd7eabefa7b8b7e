import UnrealDecl.Text.Basic

namespace UnrealDecl

/-- Why an operation on a file failed: the content is not UTF-8, the path holds a NUL character, or
the system tells another cause. -/
inductive FileError
  | notFound | alreadyThere | notDirectory | isDirectory | nameTooLong
  | notText
  | nulInPath
  | other (message : Text)
deriving DecidableEq

def FileError.message : FileError → Text
  | notFound => "No such file or directory (os error 2)"
  | alreadyThere => "File exists (os error 17)"
  | notDirectory => "Not a directory (os error 20)"
  | isDirectory => "Is a directory (os error 21)"
  | nameTooLong => "File name too long (os error 36)"
  | notText => "stream did not contain valid UTF-8"
  | nulInPath => "file name contained an unexpected NUL byte"
  | other message => message

end UnrealDecl
