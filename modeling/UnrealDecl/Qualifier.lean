import UnrealDecl.ClassFile

namespace UnrealDecl

/-- The full name printed above an enumeration. -/
structure Qualifier where
  package : Text
  classFile : Text
  name : Text
deriving DecidableEq

namespace Qualifier

/-- Reads `Package.ClassFile.Name`, exactly three parts of which none is empty. -/
def parse? (dotted : Text) : Option Qualifier :=
  match Text.splitWhere (· == '.') dotted with
  | [package, classFile, name] =>
    if package.isEmpty || classFile.isEmpty || name.isEmpty then none
    else some ⟨package, classFile, name⟩
  | _ => none

/-- The class file that a declaration of this name is written into. -/
def owner (q : Qualifier) : ClassFile :=
  ⟨q.package, q.classFile⟩

end Qualifier

end UnrealDecl
