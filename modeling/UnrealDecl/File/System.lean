import UnrealDecl.File.Error
import UnrealDecl.Text.Utf8

namespace UnrealDecl

/-- The files that a conversion reads and writes. Making a directory makes those above it where they
are missing, and writing a file replaces what it held. -/
class FileSystem (m : Type → Type) where
  read : Text → m (Except FileError (Bytes))
  makeDirs : Text → m (Except FileError Unit)
  write : Text → Bytes → m (Except FileError Unit)

end UnrealDecl
