import UnrealDecl.Conversion.SkipList
import UnrealDecl.Conversion.TokenTally
import UnrealDecl.Header.Scan

namespace UnrealDecl

/-- What became of the fragments of a conversion; those `orphaned` are members of no class. -/
structure FragmentTally where
  converted : Nat := 0
  invalid : Nat := 0
  unsupported : Nat := 0
  orphaned : Nat := 0
deriving DecidableEq, Repr

def FragmentTally.reject (t : FragmentTally) (e : DeclError) : FragmentTally :=
  match e.kind with
  | .unsupportedConstruct => { t with unsupported := t.unsupported + 1 }
  | .invalidVariable | .invalidEnumeration => { t with invalid := t.invalid + 1 }

def Fragment.read (f : Fragment) : Reading Declaration :=
  match f.kind with
  | .enumeration => ⟨(Enumeration.parse f.text).map .enumeration, []⟩
  | .member => (Variable.parse f.text).map .member

/-- The state of a conversion between two fragments. -/
structure Session where
  catalog : Catalog := {}
  fragments : FragmentTally := {}
  tokens : TokenTally := {}
deriving DecidableEq

namespace Session

/-- Puts a declaration into its class file, and tells the event; a member of no class is only
counted. -/
def file (s : Session) (f : Fragment) : Declaration → Session × Event
  | .enumeration e =>
    ({ s with
        catalog := s.catalog.modify e.qualifier.owner (ClassBody.addEnumeration e)
        fragments := { s.fragments with converted := s.fragments.converted + 1 } },
      .filedEnumeration e.qualifier.owner e.name)
  | .member v =>
    match f.owner with
    | some owner =>
      ({ s with
          catalog := s.catalog.modify owner (ClassBody.addVariable (v.inClass owner))
          fragments := { s.fragments with converted := s.fragments.converted + 1 } },
        .filedVariable owner v.name)
    | none =>
      ({ s with fragments := { s.fragments with orphaned := s.fragments.orphaned + 1 } },
        .orphan f.line v.name)

/-- Converts a fragment. Its unknown tokens are told first; an error is told and counted. -/
def add (s : Session) (f : Fragment) : Session × List Event :=
  let reading := f.read
  let counted := { s with tokens := s.tokens.pushAll reading.unknown }
  let told := reading.unknown.map TokenTally.event
  match reading.result with
  | .ok declaration =>
    let (next, event) := counted.file f declaration
    (next, told ++ [event])
  | .error e =>
    ({ counted with fragments := counted.fragments.reject e }, told ++ [.rejected f.line e])

def addAll (s : Session) : List Fragment → Session × List Event
  | [] => (s, [])
  | f :: fs =>
    let (next, events) := s.add f
    let (last, later) := next.addAll fs
    (last, events ++ later)

@[simp] theorem addAll_nil (s : Session) : s.addAll [] = (s, []) := rfl

theorem addAll_cons (s : Session) (f : Fragment) (fs : List Fragment) :
    s.addAll (f :: fs) =
      (((s.add f).1.addAll fs).1, (s.add f).2 ++ ((s.add f).1.addAll fs).2) := rfl

theorem addAll_append (s : Session) (fs gs : List Fragment) :
    s.addAll (fs ++ gs) =
      (((s.addAll fs).1.addAll gs).1, (s.addAll fs).2 ++ ((s.addAll fs).1.addAll gs).2) := by
  induction fs generalizing s with
  | nil => simp
  | cons f fs ih => simp [addAll_cons, ih]

/-- Leaves out what a skip list names, and tells how many variables that removed. -/
def skip (s : Session) (skips : SkipList) : Session × Nat :=
  ({ s with catalog := skips.apply s.catalog }, skips.countSkipped s.catalog)

end Session

end UnrealDecl
