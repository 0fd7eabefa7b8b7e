import UnrealDecl.Text.Blank

namespace UnrealDecl

/-- Why a declaration cannot be converted: a member line, as messages quote it, has no type, no name
or a type that UnrealScript cannot declare; or an enumeration has no text, no full name in its first
line, one that is not made of three parts, or no braces. -/
inductive DeclError
  | noType (line : Text)
  | noName (line : Text)
  | unsupported (line : Text)
  | emptyBlock
  | noQualifier (header : Text)
  | malformedQualifier (dotted : Text)
  | noBody (name : Text)
deriving DecidableEq, Repr

namespace DeclError

inductive Kind
  | invalidVariable | invalidEnumeration | unsupportedConstruct
deriving DecidableEq, Repr

def kind : DeclError → Kind
  | noType _ | noName _ => .invalidVariable
  | unsupported _ => .unsupportedConstruct
  | emptyBlock | noQualifier _ | malformedQualifier _ | noBody _ => .invalidEnumeration

def Kind.label : Kind → Text
  | .invalidVariable => "invalid variable declaration"
  | .invalidEnumeration => "invalid enum declaration"
  | .unsupportedConstruct => "unsupported construct"

def detail : DeclError → Text
  | noType line => "no type in `" ++ line ++ "`"
  | noName line => "no name in `" ++ line ++ "`"
  | unsupported line => line
  | emptyBlock => "empty block"
  | noQualifier header => "no qualifier in `" ++ header ++ "`"
  | malformedQualifier dotted => "malformed qualifier `" ++ dotted ++ "`"
  | noBody name => "no body for " ++ name

def message (e : DeclError) : Text :=
  e.kind.label ++ ": " ++ e.detail

end DeclError

def quotationLength : Nat := 80

/-- A line as messages quote it: trimmed, and cut with an ellipsis if it is long. -/
def quotation (line : Text) : Text :=
  let trimmed := Text.trim line
  if trimmed.length ≤ quotationLength then trimmed else trimmed.take quotationLength ++ "..."

/-- A declaration that was read or the error, and the flag tokens of unknown effect. -/
structure Reading (α : Type) where
  result : Except DeclError α
  unknown : List Text := []

def Reading.map {α β : Type} (f : α → β) (r : Reading α) : Reading β :=
  ⟨r.result.map f, r.unknown⟩

end UnrealDecl
