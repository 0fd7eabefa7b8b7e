import UnrealDecl.Conversion.Session
import UnrealDecl.Proofs.Conversion.Catalog
import UnrealDecl.Proofs.Names

namespace UnrealDecl

/-- The enumeration that a fragment is read as, if it is cut out as one and can be read. -/
def Fragment.asEnumeration? (f : Fragment) : Option Enumeration :=
  match f.kind with
  | .enumeration => (Enumeration.parse f.text).toOption
  | .member => none

def Fragment.asVariable? (f : Fragment) : Option Variable :=
  match f.kind with
  | .enumeration => none
  | .member => (Variable.parse f.text).result.toOption

/-- The declaration that a fragment puts into a class file. -/
def Fragment.declared? (f : Fragment) : Option Declaration :=
  match f.read.result with
  | .ok (.enumeration e) => some (.enumeration e)
  | .ok (.member v) => f.owner.map fun owner => .member (v.inClass owner)
  | .error _ => none

/-- The flag tokens of unknown effect on a member line that can be read. -/
def Fragment.unknownFlags (f : Fragment) : List Text :=
  match f.asVariable? with
  | some _ =>
    (Flag.tokens (Member.clean f.text)).filter fun token => (FlagEffect.of? token).isNone
  | none => []

def Declaration.addTo : Declaration → ClassBody → ClassBody
  | member v => ClassBody.addVariable v
  | enumeration e => ClassBody.addEnumeration e

@[simp] theorem Declaration.file_addTo (d : Declaration) (b : ClassBody) :
    (d.addTo b).file = b.file := by
  cases d <;> rfl

/-- Puts a declaration into its class file; one without a class file is left out. -/
def Catalog.insert (c : Catalog) (d : Declaration) : Catalog :=
  match d.owner? with
  | some file => c.modify file d.addTo
  | none => c

def Catalog.insertAll (c : Catalog) (ds : List Declaration) : Catalog :=
  ds.foldl Catalog.insert c

theorem Catalog.Sorted.insert {c : Catalog} (h : c.Sorted) (d : Declaration) :
    (c.insert d).Sorted := by
  rw [Catalog.insert]
  split
  · exact h.modify
  · exact h

theorem Catalog.Keyed.insert {c : Catalog} (h : c.Keyed) (d : Declaration) :
    (c.insert d).Keyed := by
  rw [Catalog.insert]
  split
  · exact h.modify d.file_addTo
  · exact h

theorem Variable.unknown_parse (line : Text) :
    (Variable.parse line).unknown =
      match (Variable.parse line).result with
      | .ok _ => (Flag.tokens (Member.clean line)).filter fun token => (FlagEffect.of? token).isNone
      | .error _ => [] := by
  rw [Variable.parse]
  cases Variable.head line with
  | error e => rfl
  | ok head => exact DecodedFlags.unknown_ofTokens _

theorem Fragment.declared?_enumeration {f : Fragment} (hk : f.kind = .enumeration) :
    f.declared? = f.asEnumeration?.map .enumeration := by
  simp only [declared?, asEnumeration?, read, hk]
  cases Enumeration.parse f.text <;> rfl

theorem Fragment.declared?_member {f : Fragment} (hk : f.kind = .member) :
    f.declared? =
      f.owner.bind fun owner => f.asVariable?.map fun v => .member (v.inClass owner) := by
  simp only [declared?, asVariable?, read, hk, Reading.map]
  cases (Variable.parse f.text).result with
  | error e => cases f.owner <;> rfl
  | ok v => cases f.owner <;> rfl

theorem Fragment.exists_of_declared? {f : Fragment} {d : Declaration} (h : f.declared? = some d) :
    (∃ e, Enumeration.parse f.text = .ok e ∧ d = .enumeration e) ∨
      ∃ v owner, f.kind = .member ∧ f.owner = some owner ∧ (Variable.parse f.text).result = .ok v ∧
        d = .member (v.inClass owner) := by
  rw [declared?, read] at h
  cases hk : f.kind with
  | enumeration =>
    rw [hk] at h
    cases hp : Enumeration.parse f.text with
    | error e =>
      rw [hp] at h
      cases h
    | ok e =>
      rw [hp] at h
      cases h
      exact .inl ⟨e, rfl, rfl⟩
  | member =>
    simp only [hk, Reading.map] at h
    cases hp : (Variable.parse f.text).result with
    | error e =>
      rw [hp] at h
      cases h
    | ok v =>
      rw [hp] at h
      obtain ⟨owner, ho, rfl⟩ := Option.map_eq_some_iff.1 h
      exact .inr ⟨v, owner, rfl, ho, rfl, rfl⟩

theorem Fragment.unknown_read (f : Fragment) : f.read.unknown = f.unknownFlags := by
  cases hk : f.kind with
  | enumeration => simp [read, unknownFlags, asVariable?, hk]
  | member =>
    simp only [read, unknownFlags, asVariable?, hk, Reading.map, Variable.unknown_parse]
    cases (Variable.parse f.text).result <;> rfl

theorem Fragment.unknownFlags_of_error {f : Fragment} {e : DeclError}
    (h : f.read.result = .error e) : f.unknownFlags = [] := by
  cases hk : f.kind with
  | enumeration => simp only [unknownFlags, asVariable?, hk]
  | member =>
    simp only [read, hk, Reading.map] at h
    cases hr : (Variable.parse f.text).result with
    | error e => simp only [unknownFlags, asVariable?, hk, hr, Except.toOption]
    | ok v =>
      rw [hr] at h
      cases h

theorem Fragment.unknown_of_error {f : Fragment} {e : DeclError} (h : f.read.result = .error e) :
    f.read.unknown = [] := by
  rw [f.unknown_read, unknownFlags_of_error h]

theorem Fragment.kind_of_read_member {f : Fragment} {v : Variable}
    (h : f.read.result = .ok (.member v)) : f.kind = .member := by
  cases hk : f.kind with
  | member => rfl
  | enumeration =>
    simp only [read, hk] at h
    cases hr : Enumeration.parse f.text with
    | error e =>
      rw [hr] at h
      cases h
    | ok e =>
      rw [hr] at h
      cases h

namespace Session

/-- What a fragment does to a session: it is rejected, or it is a member of no class, or the
declaration in it goes into its class file. -/
theorem add_cases (s : Session) (f : Fragment) :
    (∃ e, f.read.result = .error e ∧ f.declared? = none ∧
      (s.add f).1 = { s with fragments := s.fragments.reject e }) ∨
    (f.kind = .member ∧ f.owner = none ∧ f.declared? = none ∧
      (s.add f).1 =
        { s with
          fragments := { s.fragments with orphaned := s.fragments.orphaned + 1 }
          tokens := s.tokens.pushAll f.read.unknown }) ∨
    ∃ d, f.declared? = some d ∧ d.owner?.isSome ∧
      (s.add f).1 =
        { catalog := s.catalog.insert d
          fragments := { s.fragments with converted := s.fragments.converted + 1 }
          tokens := s.tokens.pushAll f.read.unknown } := by
  cases hr : f.read.result with
  | error e =>
    refine .inl ⟨e, rfl, by rw [Fragment.declared?, hr], ?_⟩
    simp only [add, hr, Fragment.unknown_of_error hr]
    rfl
  | ok d =>
    cases d with
    | enumeration e =>
      refine .inr (.inr ⟨.enumeration e, by rw [Fragment.declared?, hr], rfl, ?_⟩)
      simp only [add, hr]
      rfl
    | member v =>
      cases ho : f.owner with
      | none =>
        refine .inr (.inl ⟨f.kind_of_read_member hr, rfl, by rw [Fragment.declared?, hr, ho]; rfl,
          ?_⟩)
        simp only [add, hr, file, ho]
      | some owner =>
        refine .inr (.inr ⟨.member (v.inClass owner), by rw [Fragment.declared?, hr, ho]; rfl, rfl,
          ?_⟩)
        simp only [add, hr, file, ho]
        rfl

theorem catalog_add (s : Session) (f : Fragment) :
    (s.add f).1.catalog = s.catalog.insertAll f.declared?.toList := by
  rcases s.add_cases f with ⟨e, -, hd, hs⟩ | ⟨-, -, hd, hs⟩ | ⟨d, hd, -, hs⟩ <;>
    rw [hd, hs] <;> rfl

/-- A session collects the declarations of its fragments, and nothing else. -/
theorem catalog_addAll (s : Session) (fs : List Fragment) :
    (s.addAll fs).1.catalog = s.catalog.insertAll (fs.filterMap Fragment.declared?) := by
  induction fs generalizing s with
  | nil => rfl
  | cons f fs ih =>
    rw [addAll_cons, ih, catalog_add]
    cases hd : f.declared? with
    | none =>
      rw [List.filterMap_cons_none hd]
      rfl
    | some d =>
      rw [List.filterMap_cons_some hd]
      rfl

end Session

end UnrealDecl
