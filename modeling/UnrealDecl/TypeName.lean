import UnrealDecl.Text.Uppercase

namespace UnrealDecl.TypeName

/-- Why a spelling names no type of UnrealScript: it is unusable, or of a type that cannot be
declared. -/
inductive Refusal
  | unusable
  | unsupported
deriving DecidableEq, Repr

/-- What one spelling of a header stands for: the dynamic array, whose element is the next word, or
a complete type name. -/
inductive Base
  | array
  | named (name : Text)
deriving DecidableEq, Repr

/-- Drops the letter that a class name carries in front, if it is upper-case. -/
def stripClassLetter : Text → Text
  | c :: rest => if isUpper c then rest else c :: rest
  | [] => []

def delegate : Text := "FScriptDelegate"

def array : Text := "TArray"

/-- The mark of padding that a generator could not name. -/
def padding : Text := "UnknownData"

/-- The spellings with a name of their own. -/
def exact : List (Text × Text) :=
  [("long", "bool"), ("char", "byte"), ("FString", "string"), ("FName", "name")]

/-- What a single spelling stands for. -/
def base (spelling : Text) : Except Refusal Base :=
  if spelling = delegate then .error .unsupported
  else if spelling = array then .ok .array
  else match exact.lookup spelling with
    | some name => .ok (.named name)
    | none =>
      if spelling.isEmpty then .error .unusable else .ok (.named (stripClassLetter spelling))

/-- The type of a declaration with these words; an array takes two of them. -/
def ofWords : List Text → Except Refusal Text
  | [] => .error .unusable
  | first :: rest =>
    match base first with
    | .error refusal => .error refusal
    | .ok (.named name) => .ok name
    | .ok .array =>
      match rest with
      | [] => .error .unusable
      | element :: _ =>
        if Text.occurs padding element then .error .unusable
        else match base element with
          | .error refusal => .error refusal
          | .ok (.named name) => .ok ("array<" ++ name ++ ">")
          | .ok .array => .error .unusable

end UnrealDecl.TypeName
