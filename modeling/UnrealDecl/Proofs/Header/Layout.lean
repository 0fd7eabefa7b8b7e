import UnrealDecl.Declaration.Basic
import UnrealDecl.Proofs.Flag.Region
import UnrealDecl.Proofs.Header.Scan
import UnrealDecl.Proofs.Member.Layout
import UnrealDecl.Proofs.Names

namespace UnrealDecl.Header

def letters : Text :=
  ['A', 'B', 'C', 'D', 'E', 'F', 'G', 'H', 'I', 'J', 'K', 'L', 'M', 'N', 'O', 'P', 'Q', 'R', 'S',
   'T', 'U', 'V', 'W', 'X', 'Y', 'Z', 'a', 'b', 'c', 'd', 'e', 'f', 'g', 'h', 'i', 'j', 'k', 'l',
   'm', 'n', 'o', 'p', 'q', 'r', 's', 't', 'u', 'v', 'w', 'x', 'y', 'z', '_']

def digits : Text :=
  ['0', '1', '2', '3', '4', '5', '6', '7', '8', '9']

def hexDigits : Text :=
  digits ++ ['a', 'b', 'c', 'd', 'e', 'f', 'A', 'B', 'C', 'D', 'E', 'F']

def isIdentifier : Text → Bool
  | [] => false
  | c :: rest => decide (c ∈ letters) && rest.all fun d => decide (d ∈ letters ++ digits)

/-- A name that a generator can print. -/
structure Identifier where
  text : Text
  form : isIdentifier text = true

/-- The digits of a number that a generator can print. -/
structure Numeral (digits : Text) where
  text : Text
  form : ∀ c ∈ text, c ∈ digits

/-- An enumeration in a header. -/
structure EnumSection where
  package : Identifier
  classFile : Identifier
  name : Identifier
  members : List (Identifier × Numeral digits)

namespace EnumSection

def memberLine (member : Identifier × Numeral digits) : Text :=
  member.1.text ++ ' ' :: '=' :: ' ' :: (member.2.text ++ [','])

def qualifier (s : EnumSection) : Qualifier :=
  ⟨s.package.text, s.classFile.text, s.name.text⟩

def title (s : EnumSection) : Text :=
  enumMarker ++ s.qualifier.display

def footer : Text :=
  "\x7d;*/"

def lines (s : EnumSection) : List Text :=
  s.title :: ("/*enum " ++ s.name.text) :: "\x7b" :: (s.members.map memberLine ++ [footer, []])

def declaration (s : EnumSection) : Declaration :=
  .enumeration ⟨s.qualifier, s.members.map fun member => member.1.text⟩

end EnumSection

/-- The width that types and names are padded to. -/
def columnWidth : Nat := 50

/-- The type and the name of a member in a header, whose columns are wide enough for them. The width
of a bit field leaves two spaces, which count for the gap after the name. -/
structure MemberColumns where
  type : Member.Spelling
  identifier : isIdentifier type.element.word.text = true
  typeFits : type.text.length ≤ 48
  name : Identifier
  ending : Member.Ending
  nameFits : name.text.length + ending.text.length ≤ 47 + ending.slack

def MemberColumns.text (m : MemberColumns) : Text :=
  '\t' :: (m.type.text.rightpad columnWidth ' ' ++
    ' ' :: ((m.name.text ++ m.ending.text).rightpad columnWidth ' ' ++ ['\t', '\t']))

/-- A member in a header, with the comment behind its columns; `room` spaces stand in front of the
flags. -/
structure MemberLine extends MemberColumns where
  tidy : Member.clean name.text = name.text
  offset : Numeral hexDigits
  size : Numeral hexDigits
  mask : Numeral hexDigits
  room : Nat
  flags : List Text
  flagForm : ∀ flag ∈ flags, Flag.IsFlag flag ∧ Member.clean flag = flag

namespace MemberLine

/-- The comment of a member: its offset, its size, its mask and its flags. -/
def comment (m : MemberLine) : Text :=
  "// 0x" ++ m.offset.text ++ " (0x" ++ m.size.text ++ ") [0x" ++ m.mask.text ++ "]"
    ++ List.replicate m.room ' ' ++ "(" ++ Flag.row m.flags ++ ")"

def line (m : MemberLine) : Text :=
  m.text ++ m.comment

def var (m : MemberLine) : Variable :=
  ⟨none, m.name.text, m.type.scriptName, (DecodedFlags.ofTokens m.flags).modifiers⟩

end MemberLine

/-- What the members of a section belong to. -/
inductive Marker
  | ofClass | scriptStruct | function
deriving DecidableEq, Repr

def Marker.text : Marker → Text
  | ofClass => classMarker
  | scriptStruct => "// ScriptStruct "
  | function => "// Function "

/-- A class, a structure or a function in a header. -/
structure MemberSection where
  marker : Marker
  package : Identifier
  classFile : Identifier
  name : Identifier
  members : List MemberLine

namespace MemberSection

def owner (s : MemberSection) : ClassFile :=
  ⟨s.package.text, s.classFile.text⟩

def title (s : MemberSection) : Text :=
  s.marker.text ++ s.owner.display

def footer : Text :=
  "\x7d;"

def lines (s : MemberSection) : List Text :=
  s.title :: "// 0x003C" :: ("class " ++ s.name.text) :: "\x7b" :: "public:" ::
    (s.members.map MemberLine.line ++ [footer, []])

/-- What a section declares: the members of a class only. -/
def declarations (s : MemberSection) : List Declaration :=
  match s.marker with
  | .ofClass => s.members.map fun m => .member (m.var.inClass s.owner)
  | .scriptStruct | .function => []

end MemberSection

/-- A section of a header. -/
inductive Printed
  | enumeration (s : EnumSection)
  | members (s : MemberSection)

namespace Printed

def lines : Printed → List Text
  | enumeration s => s.lines
  | members s => s.lines

def declarations : Printed → List Declaration
  | enumeration s => [s.declaration]
  | members s => s.declarations

end Printed

def print (ss : List Printed) : Text :=
  Text.unlines (ss.flatMap Printed.lines)

end UnrealDecl.Header
