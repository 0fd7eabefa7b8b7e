import UnrealDecl.Text.Blank

namespace UnrealDecl.Flag

def isBracket (c : Char) : Bool :=
  c == '(' || c == ')'

def isSeparator (c : Char) : Bool :=
  c == '|' || isBlank c

/-- The flags of a member line: the words of the fourth piece between round brackets. -/
def tokens (line : Text) : List Text :=
  match (Text.splitWhere isBracket line)[3]? with
  | some region => Text.tokens isSeparator region
  | none => []

end UnrealDecl.Flag
