import UnrealDecl.Header.Fragment
import UnrealDecl.Header.Line
import UnrealDecl.Text.Lines

namespace UnrealDecl.Header

/-- The block of an enumeration while it is read: the number of its first line and its lines,
newest first. -/
structure Block where
  line : Nat
  rows : List Text

namespace Block

def push (b : Block) (row : Text) : Block :=
  { b with rows := row :: b.rows }

/-- The fragment of a block, each line of it ended by a line feed. -/
def fragment (b : Block) : Fragment :=
  ⟨.enumeration, none, Text.unlines b.rows.reverse, b.line⟩

end Block

/-- The fragment of a plain line: a member, if the line is one and stands in a class. -/
def memberFragment (sec : Section) (number : Nat) (line : Text) : List Fragment :=
  match sec with
  | .ofClass owner => if isMember line then [⟨.member, some owner, line, number⟩] else []
  | _ => []

mutual

/-- The fragments of the lines from number `number` on, which begin in section `sec`. -/
def fragmentsFrom (sec : Section) (number : Nat) : List Text → List Fragment
  | [] => []
  | line :: rest =>
    match Line.of line with
    | .marker next => fragmentsFrom next (number + 1) rest
    | .opener =>
      if closesBlock line then
        (Block.mk number [line]).fragment :: fragmentsFrom sec (number + 1) rest
      else blockFrom sec ⟨number, [line]⟩ (number + 1) rest
    | .plain => memberFragment sec number line ++ fragmentsFrom sec (number + 1) rest

/-- The fragments of the lines from number `number` on, which continue an open block. -/
def blockFrom (sec : Section) (block : Block) (number : Nat) : List Text → List Fragment
  | [] => [block.fragment]
  | line :: rest =>
    if closesBlock line then
      (block.push line).fragment :: fragmentsFrom sec (number + 1) rest
    else blockFrom sec (block.push line) (number + 1) rest

end

def fragments (source : Text) : List Fragment :=
  fragmentsFrom .preamble 1 (Text.lines source)

end UnrealDecl.Header
