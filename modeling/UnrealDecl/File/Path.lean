import UnrealDecl.Text.Basic

namespace UnrealDecl.Path

def isAbsolute (path : Text) : Bool :=
  path.head? == some '/'

/-- Continues a path with another: an absolute one replaces it, any other comes after a slash, which
is put in unless the path is empty or ends with one. -/
def join (base part : Text) : Text :=
  if isAbsolute part then part
  else if base.isEmpty || base.getLast? == some '/' then base ++ part
  else base ++ "/" ++ part

theorem join_of_isAbsolute {part : Text} (h : isAbsolute part = true) (base : Text) :
    join base part = part := by
  simp [join, h]

def pieces (path : Text) : List Text :=
  Text.splitWhere (· == '/') path

/-- Whether the first of some pieces, which are given from the last, names nothing: it is empty, or
a dot that other pieces come before. -/
def isVoid (piece : Text) (earlier : List Text) : Bool :=
  piece.isEmpty || piece == "." && !earlier.isEmpty

/-- Pieces, given from the last, without those at the end that name nothing. -/
def settle : List Text → List Text
  | [] => []
  | piece :: earlier => if isVoid piece earlier then settle earlier else piece :: earlier

/-- The path of some pieces that are given from the last; of none, it is `root`. -/
def ofPieces (root : Text) (backwards : List Text) : Text :=
  match settle backwards with
  | [] => root
  | kept => Text.join "/" kept.reverse

/-- The paths above some pieces, which are given from the last, the nearest first. -/
def above (root : Text) : List Text → List Text
  | [] => []
  | piece :: earlier =>
    if isVoid piece earlier then above root earlier
    else ofPieces root earlier :: above root earlier

def parents (path : Text) : List Text :=
  above (if isAbsolute path then "/" else []) (pieces path).reverse

/-- The path above a path, which the root and the empty path do not have. -/
def parent? (path : Text) : Option Text :=
  (parents path).head?

example : parent? "x/./c" = some "x" ∧ parent? "./c" = some "." ∧ parent? "c" = some [] := by decide

example : parent? "/c" = some "/" ∧ parent? "/" = none ∧ parent? [] = none := by decide

end UnrealDecl.Path
