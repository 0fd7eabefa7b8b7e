import UnrealDecl.Conversion.SkipList

namespace UnrealDecl

/-- What a conversion is told to do; its paths are relative to the configuration. -/
structure Config where
  inputs : List Text
  output : Text
  skip : SkipList := {}
deriving DecidableEq

/-- A format that configurations are written in. -/
class ConfigFormat where
  parse? : Text → Option Config

end UnrealDecl
