import UnrealDecl.ClassFile
import UnrealDecl.Declaration.Error
import UnrealDecl.Flag.Effect
import UnrealDecl.Flag.Region
import UnrealDecl.Member.Clutter
import UnrealDecl.Member.Columns
import UnrealDecl.TypeName

namespace UnrealDecl

/-- A member variable of a class, which a member line alone does not tell. -/
structure Variable where
  owner : Option ClassFile := none
  name : Text
  typeName : Text
  modifiers : Modifiers
deriving DecidableEq

namespace Variable

/-- The type and the name in a member line. A missing type is found before a missing name. -/
def head (line : Text) : Except DeclError (Text × Text) :=
  let cleaned := Member.clean line
  match TypeName.ofWords (Text.words cleaned) with
  | .error .unsupported => .error (.unsupported (quotation line))
  | .error .unusable => .error (.noType (quotation line))
  | .ok typeName =>
    match Member.name? cleaned with
    | none => .error (.noName (quotation line))
    | some name => .ok (typeName, name)

/-- Reads a member line; its flags are looked at only if it has a type and a name. -/
def parse (line : Text) : Reading Variable :=
  match head line with
  | .error e => ⟨.error e, []⟩
  | .ok (typeName, name) =>
    let flags := DecodedFlags.ofTokens (Flag.tokens (Member.clean line))
    ⟨.ok ⟨none, name, typeName, flags.modifiers⟩, flags.unknown⟩

def inClass (v : Variable) (owner : ClassFile) : Variable :=
  { v with owner := some owner }

def render (v : Variable) : Text :=
  (if v.modifiers.contains .edit then "var()" else "var")
    ++ v.modifiers.keywords.flatMap (fun keyword => ' ' :: keyword)
    ++ " " ++ v.typeName ++ " " ++ v.name ++ ";\n"

@[simp] theorem render_inClass (v : Variable) (owner : ClassFile) :
    (v.inClass owner).render = v.render := rfl

end Variable

end UnrealDecl
