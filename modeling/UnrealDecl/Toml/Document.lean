import UnrealDecl.Toml.Scalar

namespace UnrealDecl.Toml

/-- The depth that nesting, and the number of keys in a dotted key, must stay below. -/
def depthLimit : Nat := 80

def isBare (c : Char) : Bool :=
  c.isAlphanum || c == '-' || c == '_'

def key? (text : Text) : Option (Text × Text) :=
  match text with
  | '"' :: _ => shortString? '"' false text
  | '\'' :: _ => shortString? '\'' true text
  | _ =>
    let bare := text.takeWhile isBare
    if bare.isEmpty then none else some (bare, text.dropWhile isBare)

def keysFrom : Nat → Text → Option (List Text × Text)
  | 0, _ => none
  | fuel + 1, text => do
    let (key, rest) ← key? (skipSpaces text)
    match skipSpaces rest with
    | '.' :: rest => (keysFrom fuel rest).map fun s => (key :: s.1, s.2)
    | rest => some ([key], rest)

/-- A dotted key: the keys of its parents, and its last key. -/
def dottedKey? (text : Text) : Option ((List Text × Text) × Text) := do
  let (keys, rest) ← keysFrom (text.length + 1) text
  match keys.getLast? with
  | some key => if keys.length < depthLimit then some ((keys.dropLast, key), rest) else none
  | none => none

/-- Drops spaces, line ends and comments, each of which a line end must follow. -/
def skipBlank (inComment : Bool) : Text → Option Text
  | [] => if inComment then none else some []
  | '\r' :: '\n' :: rest => skipBlank false rest
  | c :: rest =>
    if c = '\n' then skipBlank false rest
    else if inComment then if isPlain c then skipBlank true rest else none
    else if isSpace c then skipBlank false rest
    else if c = '#' then skipBlank true rest
    else some (c :: rest)

mutual

def value? (fuel depth : Nat) (text : Text) : Option (Value × Text) :=
  match fuel, text with
  | 0, _ => none
  | fuel + 1, '[' :: rest =>
    if depth + 1 < depthLimit then
      (items? fuel (depth + 1) rest).map fun s => (.array s.1, s.2)
    else none
  | fuel + 1, '\x7b' :: rest =>
    if depth + 1 < depthLimit then
      match skipSpaces rest with
      | '\x7d' :: rest => some (.table .inline [], rest)
      | rest => (pairs? fuel (depth + 1) [] rest).map fun s => (.table .inline s.1, s.2)
    else none
  | _ + 1, text => scalar? text

def items? (fuel depth : Nat) (text : Text) : Option (List Value × Text) :=
  match fuel with
  | 0 => none
  | fuel + 1 => do
    match ← skipBlank false text with
    | ']' :: rest => some ([], rest)
    | rest =>
      let (value, rest) ← value? fuel depth rest
      match ← skipBlank false rest with
      | ',' :: rest => (items? fuel depth rest).map fun s => (value :: s.1, s.2)
      | ']' :: rest => some ([value], rest)
      | _ => none

def pairs? (fuel depth : Nat) (entries : Entries) (text : Text) : Option (Entries × Text) :=
  match fuel with
  | 0 => none
  | fuel + 1 => do
    let ((path, key), rest) ← dottedKey? text
    let (value, rest) ← value? fuel depth (skipSpaces (← expect? '=' rest))
    let entries ← entries.insertDotted path key value .inline
    match skipSpaces rest with
    | ',' :: rest => pairs? fuel depth entries rest
    | '\x7d' :: rest => some (entries, rest)
    | _ => none

end

/-- The text after the end of a line, before which spaces and a comment may stand. -/
def endLine? (text : Text) : Option Text :=
  let rest := match skipSpaces text with
    | '#' :: rest => rest.dropWhile isPlain
    | rest => rest
  if rest.isEmpty then some [] else lineFeed? rest

/-- A document while it is read: its tables, and the header of the one that keys go to. -/
structure Reader where
  root : Entries := []
  header : List Text := []

namespace Reader

def addKey (r : Reader) (path : List Text) (key : Text) (value : Value) : Option Reader :=
  (r.root.alter false (fun _ entries => entries.insertDotted path key value .header) .header
    r.header).map fun root => { r with root }

def addTable (r : Reader) (path : List Text) (key : Text) : Option Reader :=
  (r.root.openTable path key).map fun root => ⟨root, path ++ [key]⟩

def addMember (r : Reader) (path : List Text) (key : Text) : Option Reader :=
  (r.root.openMember path key).map fun root => ⟨root, path ++ [key]⟩

def readLine (r : Reader) (text : Text) : Option (Reader × Text) :=
  match text with
  | '#' :: _ | '\n' :: _ | '\r' :: _ => (endLine? text).map fun rest => (r, rest)
  | '[' :: '[' :: rest => do
    let ((path, key), rest) ← dottedKey? rest
    let rest ← endLine? (← expect? ']' (← expect? ']' rest))
    return (← r.addMember path key, rest)
  | '[' :: rest => do
    let ((path, key), rest) ← dottedKey? rest
    let rest ← endLine? (← expect? ']' rest)
    return (← r.addTable path key, rest)
  | _ => do
    let ((path, key), rest) ← dottedKey? text
    let rest := skipSpaces (← expect? '=' rest)
    let (value, rest) ← value? (2 * rest.length + 2) 0 rest
    return (← r.addKey path key value, ← endLine? rest)

def readLines (r : Reader) : Nat → Text → Option Entries
  | 0, _ => none
  | fuel + 1, text =>
    match skipSpaces text with
    | [] => some r.root
    | text => do
      let (r, rest) ← r.readLine text
      readLines r fuel rest

end Reader

/-- The entries of a document, before which a byte order mark may stand. -/
def parse? (text : Text) : Option Entries :=
  let text := match text with
    | '\uFEFF' :: rest => rest
    | _ => text
  Reader.readLines {} (text.length + 1) text

end UnrealDecl.Toml
