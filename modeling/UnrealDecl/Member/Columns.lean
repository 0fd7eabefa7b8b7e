import UnrealDecl.Text.Blank

namespace UnrealDecl.Member

/-- The fewest spaces that separate two columns. -/
def gapWidth : Nat := 3

/-- The columns of a line, of whose first column the characters of `column` are known, backwards,
and then `gap` spaces. -/
def columnsFrom (column : Text) (gap : Nat) : Text → List Text
  | [] =>
    if gapWidth ≤ gap then [column.reverse] else [(List.replicate gap ' ' ++ column).reverse]
  | c :: rest =>
    if c = ' ' then columnsFrom column (gap + 1) rest
    else if gapWidth ≤ gap then column.reverse :: columnsFrom [c] 0 rest
    else columnsFrom (c :: (List.replicate gap ' ' ++ column)) 0 rest

@[simp] theorem columnsFrom_space (column : Text) (gap : Nat) (rest : Text) :
    columnsFrom column gap (' ' :: rest) = columnsFrom column (gap + 1) rest := by
  simp [columnsFrom]

theorem columnsFrom_wide {gap : Nat} {c : Char} (hg : gapWidth ≤ gap) (hc : c ≠ ' ')
    (column rest : Text) :
    columnsFrom column gap (c :: rest) = column.reverse :: columnsFrom [c] 0 rest := by
  simp [columnsFrom, hg, hc]

theorem columnsFrom_narrow {gap : Nat} {c : Char} (hg : gap < gapWidth) (hc : c ≠ ' ')
    (column rest : Text) :
    columnsFrom column gap (c :: rest) =
      columnsFrom (c :: (List.replicate gap ' ' ++ column)) 0 rest := by
  simp [columnsFrom, Nat.not_le.2 hg, hc]

/-- The parts of a line between its wide gaps, which are runs of three or more spaces. -/
def columns (line : Text) : List Text :=
  columnsFrom [] 0 line

/-- The name that a member line declares: its second column that is not empty, trimmed. -/
def name? (line : Text) : Option Text :=
  match ((columns line).filter fun column => !column.isEmpty)[1]? with
  | some column =>
    let name := Text.trim column
    if name.isEmpty then none else some name
  | none => none

end UnrealDecl.Member
