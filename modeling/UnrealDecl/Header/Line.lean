import UnrealDecl.ClassFile
import UnrealDecl.Text.Blank

namespace UnrealDecl.Header

/-- What the members after a line belong to: nothing yet, a class, or a section that is not
converted. -/
inductive Section
  | preamble
  | ofClass (owner : ClassFile)
  | ignored
deriving DecidableEq

/-- The section that the marker of a class begins, given what follows the marker. -/
def Section.ofClassName (dotted : Text) : Section :=
  match ClassFile.parse? (Text.trim dotted) with
  | some owner => ofClass owner
  | none => ignored

/-- What a line outside of enumerations does: it begins a section, opens the block of an
enumeration, or is plain and may be a member. -/
inductive Line
  | marker (next : Section)
  | opener
  | plain
deriving DecidableEq

/-- The text after `start`, if a text begins with it. -/
def after? (start text : Text) : Option Text :=
  if start.isPrefixOf text then some (text.drop start.length) else none

def classMarker : Text := "// Class "

/-- The markers of sections that are not converted. -/
def ignoredMarkers : List Text := ["// ScriptStruct ", "// Function "]

def enumMarker : Text := "// Enum "

/-- What a line does; the space around it does not count. -/
def Line.of (line : Text) : Line :=
  let trimmed := Text.trim line
  match after? classMarker trimmed with
  | some dotted => .marker (.ofClassName dotted)
  | none =>
    if ignoredMarkers.any fun marker => marker.isPrefixOf trimmed then .marker .ignored
    else if enumMarker.isPrefixOf trimmed then .opener
    else .plain

def closesBlock (line : Text) : Bool :=
  Text.occurs "\x7d" line

/-- Whether a line declares a member: a declaration that ends with a semicolon and has no round
bracket, and then the comment with its offset. -/
def isMember (line : Text) : Bool :=
  match Text.cut "//" line with
  | none => false
  | some (left, comment) =>
    let declaration := Text.trim left
    declaration.getLast? == some ';' && !Text.occurs "(" declaration
      && ("0x" : Text).isPrefixOf (Text.trimStart comment)

end UnrealDecl.Header
