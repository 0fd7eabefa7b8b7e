import UnrealDecl.Declaration.Error
import UnrealDecl.Qualifier
import UnrealDecl.Text.Lines

namespace UnrealDecl

/-- An enumeration and its members in the order they are declared, repeats included. -/
structure Enumeration where
  qualifier : Qualifier
  members : List Text
deriving DecidableEq

namespace Enumeration

def name (e : Enumeration) : Text :=
  e.qualifier.name

/-- The member that a line of the body declares: what stands before the first equals sign, less
one space at its end. -/
def memberName (line : Text) : Text :=
  let before := ((Text.cut "=" line).map Prod.fst).getD line
  if before.getLast? = some ' ' then before.dropLast else before

/-- The text between the first opening brace and the first closing brace after it. -/
def body? (block : Text) : Option Text :=
  match Text.cut "\x7b" block with
  | some (_, rest) => (Text.cut "\x7d" rest).map Prod.fst
  | none => none

/-- The full name of an enumeration, which is the third word of its first line. -/
def qualifierOf (block : Text) : Except DeclError Qualifier :=
  match Text.lines block with
  | [] => .error .emptyBlock
  | header :: _ =>
    match (Text.words header)[2]? with
    | none => .error (.noQualifier (Text.trim header))
    | some dotted =>
      match Qualifier.parse? dotted with
      | none => .error (.malformedQualifier dotted)
      | some qualifier => .ok qualifier

/-- Reads an enumeration from its block, whose body has one member on each line that is not
empty. -/
def parse (block : Text) : Except DeclError Enumeration :=
  match qualifierOf block with
  | .error e => .error e
  | .ok qualifier =>
    match body? block with
    | none => .error (.noBody qualifier.name)
    | some body =>
      .ok ⟨qualifier, ((Text.lines body).filter fun line => !line.isEmpty).map memberName⟩

def memberLine (member : Text) : Text :=
  "    " ++ member ++ ",\n"

/-- The declaration as a block of UnrealScript with an empty line after it. -/
def render (e : Enumeration) : Text :=
  "enum " ++ e.name ++ "\n\x7b\n"
    ++ e.members.flatMap memberLine
    ++ "\x7d;\n\n"

end Enumeration

end UnrealDecl
