import UnrealDecl.Conversion.Catalog

namespace UnrealDecl

/-- What a configuration leaves out: all variables of a class file, in every package, or single
ones, each as `ClassFile.Variable`. -/
structure SkipList where
  classes : List Text := []
  vars : List Text := []
deriving DecidableEq

namespace SkipList

/-- The class file and the variable of each entry, which is cut at its first dot; an entry without
a dot stands for nothing. -/
def variablePairs (s : SkipList) : List (Text × Text) :=
  s.vars.filterMap fun entry => Text.cut "." entry

def skips (s : SkipList) (file : ClassFile) (name : Text) : Bool :=
  decide (file.name ∈ s.classes) || decide ((file.name, name) ∈ s.variablePairs)

def applyBody (s : SkipList) (key : ClassFile) (b : ClassBody) : ClassBody :=
  { b with vars := b.vars.filter fun v => !s.skips key v.name }

/-- A catalog without the variables that are left out, and without the bodies that this empties. -/
def apply (s : SkipList) (c : Catalog) : Catalog :=
  ⟨(c.units.map fun (key, b) => (key, s.applyBody key b)).filter fun (_, b) => !b.isEmpty⟩

def countBody (s : SkipList) (key : ClassFile) (b : ClassBody) : Nat :=
  b.vars.countP fun v => s.skips key v.name

def countSkipped (s : SkipList) (c : Catalog) : Nat :=
  c.units.foldr (fun (key, b) n => s.countBody key b + n) 0

end SkipList

end UnrealDecl
