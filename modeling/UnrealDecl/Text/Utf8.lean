import UnrealDecl.Text.Basic

namespace UnrealDecl

abbrev Bytes := List UInt8

namespace Utf8

/-- What a decoder has read of the character it is in: nothing, or bytes that carry the bits of
`code`, behind which `count + 1` are missing, the next of them between `low` and `high`. -/
inductive Pending
  | none
  | more (count low high code : Nat)

/-- The start of a character at its first byte, if a character can start there. -/
def start (byte : Nat) : Option (Char ⊕ Pending) :=
  if byte < 0x80 then some (.inl (Char.ofNat byte))
  else if byte < 0xC2 then none
  else if byte < 0xE0 then some (.inr (.more 0 0x80 0xBF (byte - 0xC0)))
  else if byte = 0xE0 then some (.inr (.more 1 0xA0 0xBF 0))
  else if byte = 0xED then some (.inr (.more 1 0x80 0x9F 0xD))
  else if byte < 0xF0 then some (.inr (.more 1 0x80 0xBF (byte - 0xE0)))
  else if byte = 0xF0 then some (.inr (.more 2 0x90 0xBF 0))
  else if byte < 0xF4 then some (.inr (.more 2 0x80 0xBF (byte - 0xF0)))
  else if byte = 0xF4 then some (.inr (.more 2 0x80 0x8F 4))
  else none

/-- A decoder between two bytes: what it is in, and what it has read, newest first. A longest
invalid part counts as one unreadable character. -/
structure Decoder where
  pending : Pending
  read : List (Option Char)

namespace Decoder

def begin (read : List (Option Char)) (byte : Nat) : Decoder :=
  match start byte with
  | some (.inl c) => ⟨.none, some c :: read⟩
  | some (.inr pending) => ⟨pending, read⟩
  | none => ⟨.none, none :: read⟩

def step (d : Decoder) (byte : Nat) : Decoder :=
  match d.pending with
  | .none => begin d.read byte
  | .more count low high code =>
    if low ≤ byte && byte ≤ high then
      let code := code * 64 + (byte - 0x80)
      match count with
      | 0 => ⟨.none, some (Char.ofNat code) :: d.read⟩
      | count + 1 => ⟨.more count 0x80 0xBF code, d.read⟩
    else begin (none :: d.read) byte

def finish (d : Decoder) : List (Option Char) :=
  match d.pending with
  | .none => d.read.reverse
  | .more .. => (none :: d.read).reverse

end Decoder

/-- The characters of a byte sequence, with `none` for each longest invalid part. -/
def chars (bytes : Bytes) : List (Option Char) :=
  (bytes.foldl (fun (d : Decoder) byte => d.step byte.toNat) ⟨.none, []⟩).finish

def decode? (bytes : Bytes) : Option Text :=
  let cs := chars bytes
  if cs.all Option.isSome then some (cs.filterMap id) else none

/-- The text of a byte sequence, with U+FFFD for each longest invalid part. -/
def decodeLossy (bytes : Bytes) : Text :=
  (chars bytes).map fun c => c.getD '\uFFFD'

def encode (text : Text) : Bytes :=
  text.flatMap String.utf8EncodeChar

def size (text : Text) : Nat :=
  text.foldr (fun c n => c.utf8Size + n) 0

end Utf8

end UnrealDecl
