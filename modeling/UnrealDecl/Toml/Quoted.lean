import UnrealDecl.Text.Basic

namespace UnrealDecl.Toml

def isSpace (c : Char) : Bool :=
  c == ' ' || c == '\t'

def skipSpaces (text : Text) : Text :=
  text.dropWhile isSpace

/-- Whether a character may stand in a document, line ends apart: no control character but the
tabulator. -/
def isPlain (c : Char) : Bool :=
  c == '\t' || 0x20 ≤ c.toNat && c.toNat != 0x7F

def lineFeed? : Text → Option Text
  | '\n' :: rest => some rest
  | '\r' :: '\n' :: rest => some rest
  | _ => none

def skipLines : Text → Text
  | ' ' :: rest => skipLines rest
  | '\t' :: rest => skipLines rest
  | '\n' :: rest => skipLines rest
  | '\r' :: '\n' :: rest => skipLines rest
  | text => text

def hexDigit? (c : Char) : Option Nat :=
  if '0' ≤ c && c ≤ '9' then some (c.toNat - 48)
  else if 'a' ≤ c && c ≤ 'f' then some (c.toNat - 87)
  else if 'A' ≤ c && c ≤ 'F' then some (c.toNat - 55)
  else none

/-- The character with a code point, which is no surrogate. -/
def character? (n : Nat) : Option Char :=
  if n.isValidChar then some (Char.ofNat n) else none

/-- The character that `count` hexadecimal digits stand for. -/
def codePoint? (count : Nat) (text : Text) : Option (Char × Text) :=
  let digits := (text.take count).filterMap hexDigit?
  if digits.length = count then
    (character? (digits.foldl (fun n d => 16 * n + d) 0)).map fun c => (c, text.drop count)
  else none

/-- The character that an escape stands for, after its backslash. -/
def escaped? : Text → Option (Char × Text)
  | 'b' :: rest => some ('\x08', rest)
  | 't' :: rest => some ('\t', rest)
  | 'n' :: rest => some ('\n', rest)
  | 'f' :: rest => some ('\x0C', rest)
  | 'r' :: rest => some ('\r', rest)
  | '"' :: rest => some ('"', rest)
  | '\\' :: rest => some ('\\', rest)
  | 'u' :: rest => codePoint? 4 rest
  | 'U' :: rest => codePoint? 8 rest
  | _ => none

/-- A string up to its closing quote, on one line; `raw` strings have no escapes. -/
def stringRest (quote : Char) (raw : Bool) : Nat → Text → Option (Text × Text)
  | 0, _ => none
  | _, [] => none
  | fuel + 1, c :: rest =>
    if c = quote then some ([], rest)
    else if c = '\\' && !raw then do
      let (e, rest) ← escaped? rest
      let (text, rest) ← stringRest quote raw fuel rest
      return (e :: text, rest)
    else if isPlain c then (stringRest quote raw fuel rest).map fun s => (c :: s.1, s.2)
    else none

/-- A string up to its closing three quotes, over any number of lines. One or two quotes belong to
the string, also directly before the closing ones. -/
def longStringRest (quote : Char) (raw : Bool) : Nat → Text → Option (Text × Text)
  | 0, _ => none
  | _, [] => none
  | fuel + 1, c :: rest =>
    if c = quote then
      let count := ((c :: rest).takeWhile (· == quote)).length
      if 3 ≤ count then
        let inner := min (count - 3) 2
        some (List.replicate inner quote, (c :: rest).drop (inner + 3))
      else (longStringRest quote raw fuel rest).map fun s => (c :: s.1, s.2)
    else if c = '\\' && !raw then
      match lineFeed? (skipSpaces rest) with
      | some rest => longStringRest quote raw fuel (skipLines rest)
      | none => do
        let (e, rest) ← escaped? rest
        let (text, rest) ← longStringRest quote raw fuel rest
        return (e :: text, rest)
    else match lineFeed? (c :: rest) with
      | some rest => (longStringRest quote raw fuel rest).map fun s => ('\n' :: s.1, s.2)
      | none =>
        if isPlain c then (longStringRest quote raw fuel rest).map fun s => (c :: s.1, s.2)
        else none

def shortString? (quote : Char) (raw : Bool) (text : Text) : Option (Text × Text) :=
  match text with
  | c :: rest => if c = quote then stringRest quote raw (rest.length + 1) rest else none
  | [] => none

/-- A string in three quotes; a line end directly after them does not count. -/
def longString? (quote : Char) (raw : Bool) (text : Text) : Option (Text × Text) :=
  if (List.replicate 3 quote).isPrefixOf text then
    let rest := text.drop 3
    longStringRest quote raw (rest.length + 1) ((lineFeed? rest).getD rest)
  else none

/-- A string of any of the four forms; three quotes always begin the long form. -/
def string? (text : Text) : Option (Text × Text) :=
  match text with
  | '"' :: '"' :: '"' :: _ => longString? '"' false text
  | '\'' :: '\'' :: '\'' :: _ => longString? '\'' true text
  | '"' :: _ => shortString? '"' false text
  | '\'' :: _ => shortString? '\'' true text
  | _ => none

end UnrealDecl.Toml
