import UnrealDecl.Declaration.Basic
import UnrealDecl.Json.Value

namespace UnrealDecl

open Json (field)

def Qualifier.fields (q : Qualifier) : List (Text × Json) :=
  [field "package_name" (.text q.package), field "class_file_name" (.text q.classFile),
   field "name" (.text q.name)]

def Qualifier.toJson (q : Qualifier) : Json :=
  .object q.fields

def ClassFile.fields (owner : ClassFile) : List (Text × Json) :=
  [field "package_name" (.text owner.package), field "class_file_name" (.text owner.name)]

def Modifiers.toJson (s : Modifiers) : Json :=
  .array (s.toList.map fun m => .text m.name)

/-- The structured form of a variable; without an owner it has no fields for one. -/
def Variable.fields (v : Variable) : List (Text × Json) :=
  (v.owner.map ClassFile.fields).getD []
    ++ [field "name" (.text v.name), field "type" (.text v.typeName),
      field "modifiers" v.modifiers.toJson]

def Enumeration.fields (e : Enumeration) : List (Text × Json) :=
  e.qualifier.fields ++ [field "properties" (.array (e.members.map .text))]

/-- The structured form of a declaration: its kind, then its own fields. -/
def Declaration.toJson : Declaration → Json
  | .member v => .object (field "kind" (.text "variable") :: v.fields)
  | .enumeration e => .object (field "kind" (.text "enum") :: e.fields)

end UnrealDecl
