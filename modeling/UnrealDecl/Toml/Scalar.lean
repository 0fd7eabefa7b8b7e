import UnrealDecl.Toml.Quoted
import UnrealDecl.Toml.Value

namespace UnrealDecl.Toml

/-- The digits after the first of a number, where one underscore may stand between two digits. -/
def digitsRest (isDigit : Char → Bool) : Text → Option (Text × Text)
  | '_' :: d :: rest =>
    if isDigit d then (digitsRest isDigit rest).map fun s => (d :: s.1, s.2) else none
  | c :: rest =>
    if isDigit c then (digitsRest isDigit rest).map fun s => (c :: s.1, s.2)
    else if c = '_' then none
    else some ([], c :: rest)
  | [] => some ([], [])

def digits? (isDigit : Char → Bool) : Text → Option (Text × Text)
  | c :: rest =>
    if isDigit c then (digitsRest isDigit rest).map fun s => (c :: s.1, s.2) else none
  | [] => none

def sign : Text → Text × Text
  | '+' :: rest => (['+'], rest)
  | '-' :: rest => (['-'], rest)
  | text => ([], text)

/-- The digits before a point: no zero stands before another digit. -/
def whole? (text : Text) : Option (Text × Text) :=
  match text with
  | '0' :: rest => some (['0'], rest)
  | _ => digits? Char.isDigit text

def fraction? (text : Text) : Option (Text × Text) :=
  match text with
  | '.' :: rest => digits? Char.isDigit rest
  | _ => some ([], text)

def exponent? (text : Text) : Option (Option (Text × Text) × Text) :=
  match text with
  | 'e' :: rest | 'E' :: rest =>
    let (sign, rest) := sign rest
    (digits? Char.isDigit rest).map fun s => (some (sign, s.1), s.2)
  | _ => some (none, text)

def decimal (digits : Text) : Nat :=
  digits.foldl (fun n d => 10 * n + (d.toNat - 48)) 0

/-- The least number that is too large for a double: half a unit above the largest double. -/
def doubleLimit : Nat :=
  Nat.pow 2 1024 - Nat.pow 2 970

/-- Whether `digits · 10 ^ exponent` is too large for a double. The number of digits settles all
cases but one. -/
def overflows (digits : Nat) (exponent : Int) : Bool :=
  let size : Int := (Nat.toDigits 10 digits).length
  if digits = 0 then false
  else if 309 < size + exponent then true
  else if size + exponent < 309 then false
  else doubleLimit * Nat.pow 10 (-exponent).toNat ≤ digits * Nat.pow 10 exponent.toNat

def inRange (n : Int) : Bool :=
  -9223372036854775808 ≤ n && n ≤ 9223372036854775807

/-- A decimal number: a float if it has a fraction or an exponent, and else an integer. An integer
that does not fit in 64 bits and a positive float that rounds to infinity are refused. -/
def number? (text : Text) : Option (Value × Text) := do
  let (sign, rest) := sign text
  let (whole, rest) ← whole? rest
  let (fraction, rest) ← fraction? rest
  let (exponent, rest) ← exponent? rest
  if fraction.isEmpty && exponent.isNone then
    let n : Int := if sign = ['-'] then -(decimal whole : Int) else decimal whole
    if inRange n then some (.integer n, rest) else none
  else
    let (power, shown) : Int × Text := match exponent with
      | none => (0, [])
      | some (sign, digits) =>
        (if sign = ['-'] then -(decimal digits : Int) else decimal digits, "e" ++ sign ++ digits)
    if sign != ['-'] && overflows (decimal (whole ++ fraction)) (power - fraction.length) then none
    else some (.float (sign ++ whole ++ "." ++ fraction ++ shown), rest)

/-- An integer in another base, after its two letters. -/
def radix? (base : Nat) (text : Text) : Option (Value × Text) := do
  let isDigit := fun c => match hexDigit? c with
    | some d => decide (d < base)
    | none => false
  let (digits, rest) ← digits? isDigit text
  let n : Nat := (digits.filterMap hexDigit?).foldl (fun n d => base * n + d) 0
  if inRange n then some (.integer n, rest) else none

/-- A number of exactly `count` digits between two bounds. -/
def field? (count low high : Nat) (text : Text) : Option (Nat × Text) :=
  let digits := text.take count
  if digits.length = count && digits.all Char.isDigit then
    let n := decimal digits
    if low ≤ n && n ≤ high then some (n, text.drop count) else none
  else none

def expect? (c : Char) : Text → Option Text
  | d :: rest => if d = c then some rest else none
  | [] => none

def daysIn (year month : Nat) : Nat :=
  if month = 2 then
    if year % 4 = 0 && (year % 100 != 0 || year % 400 = 0) then 29 else 28
  else if month = 4 || month = 6 || month = 9 || month = 11 then 30
  else 31

def date? (text : Text) : Option Text := do
  let (year, rest) ← field? 4 0 9999 text
  let (month, rest) ← field? 2 1 12 (← expect? '-' rest)
  let (_, rest) ← field? 2 1 (daysIn year month) (← expect? '-' rest)
  return rest

/-- The text after a time, which has seconds and perhaps a fraction of them. -/
def time? (text : Text) : Option Text := do
  let (_, rest) ← field? 2 0 23 text
  let (_, rest) ← field? 2 0 59 (← expect? ':' rest)
  let (_, rest) ← field? 2 0 60 (← expect? ':' rest)
  match rest with
  | '.' :: d :: more => if d.isDigit then some (more.dropWhile Char.isDigit) else some rest
  | _ => some rest

def offset? (text : Text) : Option Text :=
  match text with
  | 'Z' :: rest | 'z' :: rest => some rest
  | '+' :: rest | '-' :: rest => do
    let (_, rest) ← field? 2 0 23 rest
    let (_, rest) ← field? 2 0 59 (← expect? ':' rest)
    return rest
  | _ => some text

/-- A date, a time, or both, and then perhaps with an offset. -/
def dateTime? (text : Text) : Option (Value × Text) := do
  let rest ← match date? text with
    | some rest =>
      match rest with
      | c :: more =>
        if c = 'T' || c = 't' || c = ' ' then
          match time? more with
          | some rest => offset? rest
          | none => some rest
        else some rest
      | [] => some rest
    | none => time? text
  return (.dateTime (text.take (text.length - rest.length)), rest)

def word? (word : Text) (value : Value) (text : Text) : Option (Value × Text) :=
  if word.isPrefixOf text then some (value, text.drop word.length) else none

def scalar? (text : Text) : Option (Value × Text) :=
  match text with
  | '"' :: _ | '\'' :: _ => (string? text).map fun s => (.string s.1, s.2)
  | 't' :: _ => word? "true" (.boolean true) text
  | 'f' :: _ => word? "false" (.boolean false) text
  | '0' :: 'x' :: rest => radix? 16 rest
  | '0' :: 'o' :: rest => radix? 8 rest
  | '0' :: 'b' :: rest => radix? 2 rest
  | _ =>
    dateTime? text <|> number? text <|>
      let (sign, rest) := sign text
      word? "inf" (.float (sign ++ "inf")) rest <|> word? "nan" (.float (sign ++ "nan")) rest

end UnrealDecl.Toml
