import UnrealDecl.ClassFile
import UnrealDecl.Declaration.Error

namespace UnrealDecl

/-- How much an event matters, from the least to the most. -/
inductive Level
  | trace | debug | info | warn
deriving DecidableEq, Repr

namespace Level

def rank : Level → Nat
  | trace => 0
  | debug => 1
  | info => 2
  | warn => 3

def name : Level → Text
  | trace => "TRACE"
  | debug => "DEBUG"
  | info => "INFO"
  | warn => "WARN"

def admits (threshold level : Level) : Bool :=
  threshold.rank ≤ level.rank

end Level

/-- What a conversion tells while it runs. -/
inductive Event
  | parameterFlag (token : Text)
  | plainFlag (token : Text) (bit : UInt64)
  | foreignToken (token : Text)
  | rejected (line : Nat) (error : DeclError)
  | orphan (line : Nat) (name : Text)
  | filedEnumeration (owner : ClassFile) (name : Text)
  | filedVariable (owner : ClassFile) (name : Text)
  | scanned (path : Text) (fragments : Nat)
  | skipsApplied (skipped : Nat)
  | wrote (path : Text) (enumerations vars : Nat)
  | finished (files converted failed orphaned skipped unknownTokens : Nat)
deriving DecidableEq

inductive FieldValue
  | text (value : Text)
  | number (value : Nat)
deriving DecidableEq

namespace Event

def level : Event → Level
  | parameterFlag .. => .trace
  | plainFlag .. | filedEnumeration .. | filedVariable .. | skipsApplied .. | wrote .. => .debug
  | scanned .. | finished .. => .info
  | foreignToken .. | rejected .. | orphan .. => .warn

def message : Event → Text
  | parameterFlag .. => "parameter flag on a member declaration"
  | plainFlag .. => "flag has no UnrealScript modifier"
  | foreignToken .. => "unrecognized modifier token"
  | rejected _ error => "skipping declaration: " ++ error.message
  | orphan .. => "variable outside of a class section"
  | filedEnumeration .. => "enum"
  | filedVariable .. => "variable"
  | scanned .. => "scanned header"
  | skipsApplied .. => "applied skip list"
  | wrote .. => "wrote class file"
  | finished .. => "conversion finished"

def fields : Event → List (Text × FieldValue)
  | parameterFlag token | foreignToken token => [("token", .text token)]
  | plainFlag token bit => [("token", .text token), ("bit", .text (Text.hex bit.toNat))]
  | rejected line _ => [("line", .number line)]
  | orphan line name => [("line", .number line), ("name", .text name)]
  | filedEnumeration owner name | filedVariable owner name =>
    [("owner", .text owner.display), ("name", .text name)]
  | scanned path fragments => [("path", .text path), ("fragments", .number fragments)]
  | skipsApplied skipped => [("skipped", .number skipped)]
  | wrote path enumerations vars =>
    [("path", .text path), ("enums", .number enumerations), ("variables", .number vars)]
  | finished files converted failed orphaned skipped unknownTokens =>
    [("files", .number files), ("converted", .number converted), ("failed", .number failed),
     ("orphaned", .number orphaned), ("skipped", .number skipped),
     ("unknown_tokens", .number unknownTokens)]

end Event

end UnrealDecl
