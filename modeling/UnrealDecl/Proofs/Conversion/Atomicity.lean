import UnrealDecl.Proofs.Conversion.Grouping

namespace UnrealDecl

/-- One body of a catalog gets further declarations, each at the end of its list, and nothing else
changes; it is a new one of the class file if none was there. -/
structure Catalog.Gains (c c' : Catalog) (file : ClassFile) (es : List Enumeration)
    (vs : List Variable) : Prop where
  sorted : c'.Sorted
  keyed : c.Keyed → c'.Keyed
  here : c'.body? file =
    some ⟨(c.bodyOf file).file, (c.bodyOf file).enumerations ++ es, (c.bodyOf file).vars ++ vs⟩
  elsewhere : ∀ other, other ≠ file → c'.body? other = c.body? other

theorem Catalog.Sorted.gains_insert {c : Catalog} (hs : c.Sorted) {d : Declaration}
    {file : ClassFile} (h : d.owner? = some file) :
    c.Gains (c.insert d) file (d.enumerationIn? file).toList (d.memberIn? file).toList := by
  have hinsert : c.insert d = c.modify file d.addTo := by rw [Catalog.insert, h]
  refine ⟨hs.insert d, fun hk => hk.insert d, ?_, ?_⟩
  · have hadd := d.addTo_eq file (c.bodyOf file)
    rw [if_pos h] at hadd
    rw [hinsert, hs.body?_modify, if_pos rfl, hadd]
  · intro other hne
    rw [hinsert, hs.body?_modify, if_neg hne]

theorem FragmentTally.reject_eq (t : FragmentTally) (e : DeclError) :
    t.reject e =
      if e.kind = .unsupportedConstruct then { t with unsupported := t.unsupported + 1 }
      else { t with invalid := t.invalid + 1 } := by
  rw [reject]
  cases e.kind <;> rfl

theorem Fragment.unknown_of_member {f : Fragment} {v : Variable}
    (h : f.read.result = .ok (.member v)) :
    f.read.unknown =
      (Flag.tokens (Member.clean f.text)).filter fun token => (FlagEffect.of? token).isNone := by
  have hk := f.kind_of_read_member h
  rw [read, hk] at h
  rw [read, hk]
  cases hr : (Variable.parse f.text).result with
  | error e =>
    rw [Reading.map, hr] at h
    cases h
  | ok v =>
    rw [Reading.map, Variable.unknown_parse, hr]

theorem Fragment.unknown_of_enumeration {f : Fragment} {e : Enumeration}
    (h : f.read.result = .ok (.enumeration e)) : f.read.unknown = [] := by
  rw [f.unknown_read, unknownFlags, asVariable?]
  cases hk : f.kind with
  | enumeration => rfl
  | member =>
    rw [read, hk, Reading.map] at h
    cases hr : (Variable.parse f.text).result with
    | error e =>
      rw [hr] at h
      cases h
    | ok v =>
      rw [hr] at h
      cases h

theorem Fragment.read_cases (f : Fragment) :
    (∃ e, f.read.result = .error e) ∨
      (∃ v, f.read.result = .ok (.member v) ∧ f.owner = none) ∨
      (∃ v owner, f.read.result = .ok (.member v) ∧ f.owner = some owner) ∨
      ∃ e, f.read.result = .ok (.enumeration e) := by
  cases hr : f.read.result with
  | error e => exact .inl ⟨e, rfl⟩
  | ok d =>
    cases d with
    | enumeration e => exact .inr (.inr (.inr ⟨e, rfl⟩))
    | member v =>
      cases ho : f.owner with
      | none => exact .inr (.inl ⟨v, rfl, rfl⟩)
      | some owner => exact .inr (.inr (.inl ⟨v, owner, rfl, rfl⟩))

def Fragment.isRead (f : Fragment) : Bool :=
  f.read.result.isOk

namespace Session

section Add

variable (s : Session) {f : Fragment}

theorem add_of_error {e : DeclError} (h : f.read.result = .error e) :
    s.add f = ({ s with fragments := s.fragments.reject e }, [.rejected f.line e]) := by
  simp only [add, h, Fragment.unknown_of_error h]
  rfl

theorem add_of_orphan {v : Variable} (h : f.read.result = .ok (.member v)) (ho : f.owner = none) :
    s.add f =
      ({ s with
          fragments := { s.fragments with orphaned := s.fragments.orphaned + 1 }
          tokens := s.tokens.pushAll f.read.unknown },
        f.read.unknown.map TokenTally.event ++ [.orphan f.line v.name]) := by
  simp only [add, h, file, ho]

theorem add_of_member {v : Variable} {owner : ClassFile} (h : f.read.result = .ok (.member v))
    (ho : f.owner = some owner) :
    s.add f =
      ({ catalog := s.catalog.insert (.member (v.inClass owner))
         fragments := { s.fragments with converted := s.fragments.converted + 1 }
         tokens := s.tokens.pushAll f.read.unknown },
        f.read.unknown.map TokenTally.event ++ [.filedVariable owner v.name]) := by
  simp only [add, h, file, ho]
  rfl

theorem add_of_enumeration {e : Enumeration} (h : f.read.result = .ok (.enumeration e)) :
    s.add f =
      ({ s with
          catalog := s.catalog.insert (.enumeration e)
          fragments := { s.fragments with converted := s.fragments.converted + 1 } },
        [.filedEnumeration e.qualifier.owner e.name]) := by
  simp only [add, h, Fragment.unknown_of_enumeration h]
  rfl

end Add

/-- Two sessions differ in nothing but how many fragments were refused. -/
structure Agrees (s t : Session) : Prop where
  catalog : s.catalog = t.catalog
  tokens : s.tokens = t.tokens
  converted : s.fragments.converted = t.fragments.converted
  orphaned : s.fragments.orphaned = t.fragments.orphaned

variable {s t : Session}

theorem agrees_add_of_error (s : Session) {f : Fragment} {e : DeclError}
    (h : f.read.result = .error e) : (s.add f).1.Agrees s := by
  rw [s.add_of_error h, FragmentTally.reject_eq]
  split <;> exact ⟨rfl, rfl, rfl, rfl⟩

theorem Agrees.trans {u : Session} (h : s.Agrees t) (h' : t.Agrees u) : s.Agrees u :=
  ⟨h.catalog.trans h'.catalog, h.tokens.trans h'.tokens, h.converted.trans h'.converted,
    h.orphaned.trans h'.orphaned⟩

theorem Agrees.add {f : Fragment} (h : s.Agrees t) (hf : f.isRead = true) :
    (s.add f).1.Agrees (t.add f).1 := by
  have htokens := congrArg (·.pushAll f.read.unknown) h.tokens
  rcases f.read_cases with ⟨e, hr⟩ | ⟨v, hr, ho⟩ | ⟨v, owner, hr, ho⟩ | ⟨e, hr⟩
  · rw [Fragment.isRead, hr] at hf
    cases hf
  · rw [s.add_of_orphan hr ho, t.add_of_orphan hr ho]
    exact ⟨h.catalog, htokens, h.converted, congrArg (· + 1) h.orphaned⟩
  · rw [s.add_of_member hr ho, t.add_of_member hr ho]
    have hcatalog := congrArg (fun c => c.insert (.member (v.inClass owner))) h.catalog
    exact ⟨hcatalog, htokens, congrArg (· + 1) h.converted, h.orphaned⟩
  · rw [s.add_of_enumeration hr, t.add_of_enumeration hr]
    have hcatalog := congrArg (fun c => c.insert (.enumeration e)) h.catalog
    exact ⟨hcatalog, h.tokens, congrArg (· + 1) h.converted, h.orphaned⟩

/-- Fragments that cannot be read could as well be left out of a run. -/
theorem Agrees.addAll (h : s.Agrees t) (fs : List Fragment) :
    (s.addAll fs).1.Agrees (t.addAll (fs.filter Fragment.isRead)).1 := by
  induction fs generalizing s t with
  | nil => exact h
  | cons f fs ih =>
    rw [addAll_cons]
    by_cases hf : f.isRead = true
    · rw [List.filter_cons_of_pos hf, addAll_cons]
      exact ih (h.add hf)
    · rw [List.filter_cons_of_neg hf]
      cases hr : f.read.result with
      | error e => exact ih ((s.agrees_add_of_error hr).trans h)
      | ok d =>
        rw [Fragment.isRead, hr] at hf
        exact absurd rfl hf

/-- A fragment that cannot be read is told and counted, and nothing else; a member of no class is
counted, and a declaration goes to the end of one list in one body. -/
theorem add_atomic (s : Session) (f : Fragment) :
    (∀ e, f.read.result = .error e →
      f.read.unknown = [] ∧ s.add f =
        ({ s with
            fragments :=
              if e.kind = .unsupportedConstruct then
                { s.fragments with unsupported := s.fragments.unsupported + 1 }
              else { s.fragments with invalid := s.fragments.invalid + 1 } },
          [.rejected f.line e])) ∧
    (∀ v, f.read.result = .ok (.member v) →
      f.read.unknown =
        (Flag.tokens (Member.clean f.text)).filter (fun token => (FlagEffect.of? token).isNone) ∧
      (s.add f).1.tokens = s.tokens.pushAll f.read.unknown ∧
      ∃ last, (s.add f).2 = f.read.unknown.map TokenTally.event ++ [last]) ∧
    (∀ v, f.read.result = .ok (.member v) → f.owner = none →
      (s.add f).1.catalog = s.catalog ∧
      (s.add f).1.fragments = { s.fragments with orphaned := s.fragments.orphaned + 1 }) ∧
    (∀ v owner, f.read.result = .ok (.member v) → f.owner = some owner →
      (s.add f).1.fragments = { s.fragments with converted := s.fragments.converted + 1 } ∧
      (s.catalog.Sorted → s.catalog.Gains (s.add f).1.catalog owner [] [v.inClass owner])) ∧
    (∀ e, f.read.result = .ok (.enumeration e) →
      f.read.unknown = [] ∧ (s.add f).1.tokens = s.tokens ∧
      (s.add f).1.fragments = { s.fragments with converted := s.fragments.converted + 1 } ∧
      (s.catalog.Sorted → s.catalog.Gains (s.add f).1.catalog e.qualifier.owner [e] [])) ∧
    ∀ fs, (s.addAll fs).1.Agrees (s.addAll (fs.filter Fragment.isRead)).1 := by
  refine ⟨?_, ?_, ?_, ?_, ?_, fun fs => Agrees.addAll ⟨rfl, rfl, rfl, rfl⟩ fs⟩
  · intro e he
    have hu : f.read.unknown = [] := by
      rw [f.unknown_read, Fragment.unknownFlags_of_error he]
    exact ⟨hu, by rw [s.add_of_error he, FragmentTally.reject_eq]⟩
  · intro v hv
    refine ⟨Fragment.unknown_of_member hv, ?_⟩
    cases ho : f.owner with
    | none =>
      rw [s.add_of_orphan hv ho]
      exact ⟨rfl, _, rfl⟩
    | some owner =>
      rw [s.add_of_member hv ho]
      exact ⟨rfl, _, rfl⟩
  · intro v hv ho
    rw [s.add_of_orphan hv ho]
    exact ⟨rfl, rfl⟩
  · intro v owner hv ho
    rw [s.add_of_member hv ho]
    refine ⟨rfl, fun hs => ?_⟩
    have hgains := hs.gains_insert (d := .member (v.inClass owner)) rfl
    simpa [Declaration.enumerationIn?, Declaration.memberIn?, Variable.inClass] using hgains
  · intro e he
    rw [s.add_of_enumeration he]
    refine ⟨Fragment.unknown_of_enumeration he, rfl, rfl, fun hs => ?_⟩
    have hgains := hs.gains_insert (d := .enumeration e) rfl
    simpa [Declaration.enumerationIn?, Declaration.memberIn?] using hgains

def slotFragment (owner : Option ClassFile) : Fragment :=
  ⟨.member, owner, "\tint   Slot;   // 0x40 (0x4) [0x0] ( CPF_Foo | CPF_Edit | CPF_Foo )", 3⟩

def slot : Variable :=
  ⟨none, "Slot", "int", Modifiers.empty.insert .edit⟩

def delegateFragment : Fragment :=
  ⟨.member, some ⟨"Core", "Object"⟩, "\tstruct FScriptDelegate   OnClick;   // ( ( ( CPF_Foo )", 4⟩

def axisFragment : Fragment :=
  ⟨.enumeration, none, "// Enum Core.Object.EAxis\n\x7bAXIS_X = 1\n\x7d", 5⟩

theorem add_atomic_slot :
    ∃ e, delegateFragment.read.result = .error e ∧ e.kind = .unsupportedConstruct ∧
      let s := (({} : Session).add (slotFragment (some ⟨"Core", "Object"⟩))).1
      s.tokens = ⟨0, 2⟩ ∧
      Catalog.Gains {} s.catalog ⟨"Core", "Object"⟩ [] [slot.inClass ⟨"Core", "Object"⟩] ∧
      s.add delegateFragment =
        ({ s with fragments := { s.fragments with unsupported := s.fragments.unsupported + 1 } },
          [.rejected 4 e]) ∧
      (s.add (slotFragment none)).1.catalog = s.catalog ∧
      s.catalog.Gains (s.add axisFragment).1.catalog ⟨"Core", "Object"⟩
        [⟨⟨"Core", "Object", "EAxis"⟩, ["AXIS_X"]⟩] [] := by
  have hslot : ∀ owner, (slotFragment owner).read.result = .ok (.member slot) := by
    intro owner
    have hread : (slotFragment none).read.result = .ok (.member slot) := by decide +kernel
    exact hread
  have hdelegate : delegateFragment.read.result =
      .error (.unsupported "struct FScriptDelegate   OnClick;   // ( ( ( CPF_Foo )") := by
    decide +kernel
  have haxis : axisFragment.read.result =
      .ok (.enumeration ⟨⟨"Core", "Object", "EAxis"⟩, ["AXIS_X"]⟩) := by
    decide +kernel
  refine ⟨_, hdelegate, rfl, ?_⟩
  intro s
  obtain ⟨-, htold, -, hmember, -, -⟩ :=
    ({} : Session).add_atomic (slotFragment (some ⟨"Core", "Object"⟩))
  obtain ⟨-, hgains⟩ := hmember slot _ (hslot _) rfl
  have hsorted : s.catalog.Sorted := (hgains Catalog.sorted_empty).sorted
  obtain ⟨hrefused, -⟩ := s.add_atomic delegateFragment
  have hrefusal := (hrefused _ hdelegate).2
  rw [if_pos (by rfl)] at hrefusal
  obtain ⟨-, -, horphan, -⟩ := s.add_atomic (slotFragment none)
  obtain ⟨-, -, -, -, henumeration, -⟩ := s.add_atomic axisFragment
  obtain ⟨-, -, -, haxisGains⟩ := henumeration _ haxis
  refine ⟨?_, hgains Catalog.sorted_empty, hrefusal, (horphan slot (hslot none) rfl).1,
    haxisGains hsorted⟩
  rw [(htold slot (hslot _)).2.1, (htold slot (hslot _)).1]
  decide +kernel

end Session

end UnrealDecl
