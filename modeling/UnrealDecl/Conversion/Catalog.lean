import UnrealDecl.Declaration.Basic

namespace UnrealDecl

/-- What is written into one class file. -/
structure ClassBody where
  file : ClassFile
  enumerations : List Enumeration := []
  vars : List Variable := []
deriving DecidableEq

namespace ClassBody

def isEmpty (b : ClassBody) : Bool :=
  b.enumerations.isEmpty && b.vars.isEmpty

def size (b : ClassBody) : Nat :=
  b.enumerations.length + b.vars.length

def addEnumeration (e : Enumeration) (b : ClassBody) : ClassBody :=
  { b with enumerations := b.enumerations ++ [e] }

def addVariable (v : Variable) (b : ClassBody) : ClassBody :=
  { b with vars := b.vars ++ [v] }

/-- The text of a class file: the enumerations, then the variables. -/
def render (b : ClassBody) : Text :=
  b.enumerations.flatMap Enumeration.render ++ b.vars.flatMap Variable.render

end ClassBody

/-- The class files of a conversion in the order of their keys, each at most once, with what is
written into them. -/
structure Catalog where
  units : List (ClassFile × ClassBody) := []
deriving DecidableEq

namespace Catalog

/-- Changes the body under a key; where there is none, an empty one of that class file comes
first. -/
def modifyUnits (key : ClassFile) (f : ClassBody → ClassBody) :
    List (ClassFile × ClassBody) → List (ClassFile × ClassBody)
  | [] => [(key, f ⟨key, [], []⟩)]
  | (other, b) :: units =>
    if other = key then (other, f b) :: units
    else if key.before other then (key, f ⟨key, [], []⟩) :: (other, b) :: units
    else (other, b) :: modifyUnits key f units

def modify (c : Catalog) (key : ClassFile) (f : ClassBody → ClassBody) : Catalog :=
  ⟨modifyUnits key f c.units⟩

def bodies (c : Catalog) : List ClassBody :=
  c.units.map Prod.snd

def body? (c : Catalog) (key : ClassFile) : Option ClassBody :=
  c.units.lookup key

def size (c : Catalog) : Nat :=
  c.bodies.foldr (fun b n => b.size + n) 0

end Catalog

end UnrealDecl
