import UnrealDecl.Declaration.Enumeration
import UnrealDecl.Declaration.Variable

namespace UnrealDecl

/-- What a fragment of a header can become. -/
inductive Declaration
  | member (v : Variable)
  | enumeration (e : Enumeration)
deriving DecidableEq

namespace Declaration

/-- Reads a fragment by its shape: one with an opening brace is an enumeration, any other a member
line. -/
def parse (fragment : Text) : Reading Declaration :=
  if Text.occurs "\x7b" fragment then ⟨(Enumeration.parse fragment).map .enumeration, []⟩
  else (Variable.parse fragment).map .member

def owner? : Declaration → Option ClassFile
  | member v => v.owner
  | enumeration e => some e.qualifier.owner

def name : Declaration → Text
  | member v => v.name
  | enumeration e => e.name

def render : Declaration → Text
  | member v => v.render
  | enumeration e => e.render

end Declaration

end UnrealDecl
