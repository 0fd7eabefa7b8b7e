import UnrealDecl.Text.Basic

namespace UnrealDecl

/-- The name of a class file, which declarations belong to, and of the package it is in. -/
structure ClassFile where
  package : Text
  name : Text
deriving DecidableEq

namespace ClassFile

/-- Reads `Package.ClassFile`, whose parts must be there and hold no further dot. -/
def parse? (dotted : Text) : Option ClassFile :=
  match Text.cut "." dotted with
  | some (package, name) =>
    if package.isEmpty || name.isEmpty || Text.occurs "." name then none
    else some ⟨package, name⟩
  | none => none

def display (file : ClassFile) : Text :=
  file.package ++ "." ++ file.name

/-- Whether one class file comes before another: by package, then by name, each by code point. -/
def before (a b : ClassFile) : Bool :=
  Text.before a.package b.package || a.package == b.package && Text.before a.name b.name

end ClassFile

end UnrealDecl
