import UnrealDecl.ClassFile

namespace UnrealDecl

inductive Fragment.Kind
  | member | enumeration
deriving DecidableEq, Repr

/-- A declaration cut out of a header, with the number of its first line, from 1, and the class
whose section it stands in; an enumeration names its own. -/
structure Fragment where
  kind : Fragment.Kind
  owner : Option ClassFile
  text : Text
  line : Nat
deriving DecidableEq

end UnrealDecl
