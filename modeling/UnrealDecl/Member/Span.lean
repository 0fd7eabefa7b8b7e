import UnrealDecl.Member.Columns
import UnrealDecl.Text.Utf8

namespace UnrealDecl.Member

/-- A part of a line, from the byte that it starts at up to the byte that it stops before. -/
structure Span where
  start : Nat
  stop : Nat
deriving DecidableEq, Repr

def Span.cut (s : Span) (bytes : Bytes) : Bytes :=
  (bytes.take s.stop).drop s.start

/-- A search for wide gaps, between two bytes of a line: the columns that have ended, where the open
one starts, where the last run of spaces starts, and how many spaces stand directly before. -/
structure GapScan where
  ended : List Span := []
  columnStart : Nat := 0
  gapStart : Nat := 0
  gap : Nat := 0
deriving DecidableEq, Repr

namespace GapScan

/-- Reads the byte at an offset. It is the first byte behind a wide gap that ends a column. -/
def step (s : GapScan) (offset : Nat) (byte : UInt8) : GapScan :=
  if byte = 0x20 then
    { s with gapStart := if s.gap = 0 then offset else s.gapStart, gap := s.gap + 1 }
  else if gapWidth ≤ s.gap then
    { s with ended := s.ended ++ [⟨s.columnStart, s.gapStart⟩], columnStart := offset, gap := 0 }
  else { s with gap := 0 }

def scan (s : GapScan) (offset : Nat) : Bytes → GapScan
  | [] => s
  | byte :: bytes => (s.step offset byte).scan (offset + 1) bytes

/-- The columns of a line of some length: the last one ends at a wide gap, or at the end. -/
def finish (s : GapScan) (length : Nat) : List Span :=
  s.ended ++ [⟨s.columnStart, if gapWidth ≤ s.gap then s.gapStart else length⟩]

end GapScan

/-- The columns of a line as they are found in its bytes, without any look at its characters. -/
def spans (line : Text) : List Span :=
  let bytes := Utf8.encode line
  (GapScan.scan {} 0 bytes).finish bytes.length

example : spans "é   ü ñ     " = [⟨0, 2⟩, ⟨5, 10⟩] := by decide

end UnrealDecl.Member
