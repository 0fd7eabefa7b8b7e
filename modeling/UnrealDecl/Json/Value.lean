import UnrealDecl.Text.Basic

namespace UnrealDecl

/-- A JSON value made of texts; the fields of an object keep their order. -/
inductive Json where
  | text (value : Text)
  | array (items : List Json)
  | object (fields : List (Text × Json))

namespace Json

def field (name : Text) (value : Json) : Text × Json :=
  (name, value)

/-- A character as it stands in a JSON text: quotes, backslashes and control characters are
escaped, by a letter where there is one. -/
def escape (c : Char) : Text :=
  if c = '"' then "\\\""
  else if c = '\\' then "\\\\"
  else if c.toNat = 0x08 then "\\b"
  else if c.toNat = 0x09 then "\\t"
  else if c.toNat = 0x0A then "\\n"
  else if c.toNat = 0x0C then "\\f"
  else if c.toNat = 0x0D then "\\r"
  else if c.toNat < 0x20 then
    "\\u00" ++ [Nat.digitChar (c.toNat / 16), Nat.digitChar (c.toNat % 16)]
  else [c]

def quote (text : Text) : Text :=
  "\"" ++ text.flatMap escape ++ "\""

mutual

/-- Writes a value without any space. -/
def compact : Json → Text
  | text value => quote value
  | array items => "[" ++ compactItems items ++ "]"
  | object fields => "\x7b" ++ compactFields fields ++ "\x7d"

def compactItems : List Json → Text
  | [] => []
  | [item] => compact item
  | item :: items => compact item ++ "," ++ compactItems items

def compactFields : List (Text × Json) → Text
  | [] => []
  | [(name, value)] => quote name ++ ":" ++ compact value
  | (name, value) :: fields => quote name ++ ":" ++ compact value ++ "," ++ compactFields fields

end

/-- A line feed and the indentation of a nesting depth, two spaces for each level. -/
def newline (depth : Nat) : Text :=
  '\n' :: List.replicate (2 * depth) ' '

mutual

/-- Writes a value at a nesting depth, each item and each field on a line of its own. -/
def prettyAt (depth : Nat) : Json → Text
  | text value => quote value
  | array [] => "[]"
  | array items => "[" ++ prettyItems (depth + 1) items ++ newline depth ++ "]"
  | object [] => "\x7b\x7d"
  | object fields => "\x7b" ++ prettyFields (depth + 1) fields ++ newline depth ++ "\x7d"

def prettyItems (depth : Nat) : List Json → Text
  | [] => []
  | [item] => newline depth ++ prettyAt depth item
  | item :: items => newline depth ++ prettyAt depth item ++ "," ++ prettyItems depth items

def prettyFields (depth : Nat) : List (Text × Json) → Text
  | [] => []
  | [(name, value)] => newline depth ++ quote name ++ ": " ++ prettyAt depth value
  | (name, value) :: fields =>
    newline depth ++ quote name ++ ": " ++ prettyAt depth value ++ "," ++ prettyFields depth fields

end

/-- Writes a value over several lines, indented by two spaces for each level. -/
def pretty (value : Json) : Text :=
  prettyAt 0 value

end Json

end UnrealDecl
