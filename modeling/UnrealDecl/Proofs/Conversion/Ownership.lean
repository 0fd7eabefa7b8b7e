import UnrealDecl.Proofs.Conversion.Atomicity
import UnrealDecl.Proofs.Header.Specification

namespace UnrealDecl

namespace Qualifier

theorem display_eq (q : Qualifier) : q.display = q.owner.display ++ "." ++ q.name := by
  simp [display, ClassFile.display, owner]

theorem parse?_eq_some_iff_owner {dotted : Text} {q : Qualifier} :
    parse? dotted = some q ↔
      ∃ (file : ClassFile) (name : Text), ClassFile.parse? file.display = some file ∧ IsPart name ∧
        dotted = file.display ++ "." ++ name ∧ q.owner = file ∧ q.name = name := by
  rw [parse?_eq_some_iff, display_eq]
  constructor
  · rintro ⟨hdotted, hpackage, hfile, hname⟩
    have hread : ClassFile.parse? q.owner.display = some q.owner :=
      ClassFile.parse?_display ⟨hpackage, hfile⟩
    exact ⟨q.owner, q.name, hread, hname, hdotted, rfl, rfl⟩
  · rintro ⟨file, name, hread, hname, hdotted, rfl, rfl⟩
    obtain ⟨-, hpackage, hfile⟩ := ClassFile.parse?_eq_some_iff.1 hread
    exact ⟨hdotted, hpackage, hfile, hname⟩

end Qualifier

theorem Enumeration.exists_title {block : Text} {e : Enumeration} (h : parse block = .ok e) :
    ∃ title rest, Text.lines block = title :: rest ∧
      (Text.words title)[2]? = some (e.qualifier.owner.display ++ "." ++ e.name) := by
  obtain ⟨title, rest, dotted, hlines, hword, hdotted⟩ :=
    qualifierOf_eq_ok_iff.1 (parse_eq_ok_iff.1 h).1
  rw [(Qualifier.parse?_eq_some_iff.1 hdotted).1, Qualifier.display_eq] at hword
  exact ⟨title, rest, hlines, hword⟩

theorem Fragment.parse_of_read {f : Fragment} {e : Enumeration}
    (h : f.read.result = .ok (.enumeration e)) : Enumeration.parse f.text = .ok e := by
  have hdeclared : f.declared? = some (.enumeration e) := by rw [declared?, h]
  rcases f.exists_of_declared? hdeclared with ⟨e', he, heq⟩ | ⟨v, owner, -, -, -, heq⟩
  · cases heq
    exact he
  · cases heq

namespace Header

/-- Line `j`, counted from 0, stands in the section that a class marker begins: the marker comes
before it, outside of blocks, and is the last such marker of any section. -/
inductive StandsUnder (ls : List Text) (j : Nat) (dotted : Text) : Prop
  | intro {k : Nat} {title : Text} (before : k < j) (here : ls[k]? = some title)
      (marker : Text.trim title = classMarker ++ dotted) (outside : ¬ InBlock ls k)
      (last : ∀ i, k < i → i ≤ j → ¬ InBlock ls i →
        ∀ line sec, ls[i]? = some line → ¬ Begins line sec)

theorem StandsUnder.inForce {ls : List Text} {j : Nat} {dotted : Text}
    (h : StandsUnder ls j dotted) : InForce ls (j + 1) (.ofClassName dotted) := by
  obtain ⟨before, here, marker, outside, last⟩ := h
  refine .marked (Nat.lt_succ_of_lt before) here outside (ofClassName_begins marker) ?_
  intro i hki hij
  exact last i hki (Nat.le_of_lt_succ hij)

theorem Section.ofClassName_eq_iff {dotted : Text} {owner : ClassFile} :
    Section.ofClassName dotted = .ofClass owner ↔
      ClassFile.parse? (Text.trim dotted) = some owner := by
  rw [ofClassName]
  cases ClassFile.parse? (Text.trim dotted) <;> simp

theorem fragmentAt_of_mem {source : Text} {f : Fragment} (h : f ∈ fragments source) :
    FragmentAt (Text.lines source) (f.line - 1) f := by
  obtain ⟨i, hf⟩ := mem_fragments_iff.1 h
  have hline : f.line = i + 1 := by cases hf <;> rfl
  rwa [hline, Nat.add_sub_cancel]

theorem FragmentAt.exists_standsUnder {ls : List Text} {j : Nat} {g : Fragment}
    (hg : FragmentAt ls j g) (hmember : g.kind = .member) : ∃ dotted, StandsUnder ls j dotted := by
  cases hg with
  | block => cases hmember
  | member here outside sec isMember =>
    cases sec with
    | @marked k _ _ before title outside' begins last =>
      have hne : k ≠ j := by
        rintro rfl
        cases here.symm.trans title
        rw [begins.isMember_eq_false] at isMember
        cases isMember
      cases begins with
      | @ofClass dotted owner marker name =>
        refine ⟨dotted, .intro (Nat.lt_of_le_of_ne (Nat.le_of_lt_succ before) hne) title marker
          outside' ?_⟩
        intro i hki hij
        exact last i hki (Nat.lt_succ_of_le hij)

/-- A member belongs to the class file that the marker above it names. -/
theorem FragmentAt.owner_of_standsUnder {ls : List Text} {j : Nat} {g : Fragment} {dotted : Text}
    (hg : FragmentAt ls j g) (hmember : g.kind = .member) (h : StandsUnder ls j dotted) :
    ∃ owner, g.owner = some owner ∧ ClassFile.parse? (Text.trim dotted) = some owner := by
  cases hg with
  | block => cases hmember
  | @member line owner here outside sec isMember =>
    exact ⟨owner, rfl, Section.ofClassName_eq_iff.1 (h.inForce.unique sec)⟩

end Header

namespace Session

variable {s : Session} {f : Fragment}

theorem gains_add_of_enumeration {e : Enumeration} (hs : s.catalog.Sorted)
    (h : f.read.result = .ok (.enumeration e)) :
    s.catalog.Gains (s.add f).1.catalog e.qualifier.owner [e] [] := by
  have hgains := hs.gains_insert (d := .enumeration e) rfl
  rw [s.add_of_enumeration h]
  simpa [Declaration.enumerationIn?, Declaration.memberIn?] using hgains

theorem gains_add_of_member {v : Variable} {owner : ClassFile} (hs : s.catalog.Sorted)
    (h : f.read.result = .ok (.member v)) (ho : f.owner = some owner) :
    s.catalog.Gains (s.add f).1.catalog owner [] [v.inClass owner] := by
  have hgains := hs.gains_insert (d := .member (v.inClass owner)) rfl
  rw [s.add_of_member h ho]
  simpa [Declaration.enumerationIn?, Declaration.memberIn?, Variable.inClass] using hgains

end Session

/-- Names of class files and full names of enumerations are read exactly as they are written, and an
enumeration goes into the class file whose name stands in front of its own. -/
theorem names_agree :
    (∀ (dotted : Text) (file : ClassFile), ClassFile.parse? dotted = some file →
      file.display = dotted ∧ IsPart file.package ∧ IsPart file.name) ∧
    (∀ package name : Text, IsPart package → IsPart name →
      ClassFile.parse? (package ++ "." ++ name) = some ⟨package, name⟩) ∧
    (∀ (dotted : Text) (q : Qualifier), Qualifier.parse? dotted = some q ↔
      ∃ (file : ClassFile) (name : Text), ClassFile.parse? file.display = some file ∧ IsPart name ∧
        dotted = file.display ++ "." ++ name ∧ q.owner = file ∧ q.name = name) ∧
    (∀ (dotted other : Text) (file file' : ClassFile), ClassFile.parse? dotted = some file →
      ClassFile.parse? other = some file' → file.display = file'.display → file = file') ∧
    ∀ (f : Fragment) (e : Enumeration), f.read.result = .ok (.enumeration e) →
      (∃ title rest, Text.lines f.text = title :: rest ∧
        (Text.words title)[2]? = some (e.qualifier.owner.display ++ "." ++ e.name)) ∧
      ∀ s : Session, s.catalog.Sorted →
        s.catalog.Gains (s.add f).1.catalog e.qualifier.owner [e] [] ∧
        ∀ (source : Text) (g : Fragment) (v : Variable), g ∈ Header.fragments source →
          g.read.result = .ok (.member v) →
          (∃ dotted, Header.StandsUnder (Text.lines source) (g.line - 1) dotted) ∧
          ∀ dotted, Header.StandsUnder (Text.lines source) (g.line - 1) dotted →
            ∃ owner, s.catalog.Gains (s.add g).1.catalog owner [] [v.inClass owner] ∧
              (owner = e.qualifier.owner ↔ Text.trim dotted = e.qualifier.owner.display) := by
  refine ⟨?_, ?_, ?_, ?_, ?_⟩
  · intro dotted file h
    obtain ⟨hdisplay, hnamed⟩ := ClassFile.parse?_eq_some_iff.1 h
    exact ⟨hdisplay.symm, hnamed.package, hnamed.name⟩
  · intro package name hpackage hname
    exact ClassFile.parse?_eq_some_iff.2 ⟨rfl, hpackage, hname⟩
  · intro dotted q
    exact Qualifier.parse?_eq_some_iff_owner
  · intro dotted other file file' h h' hdisplay
    have hread := (ClassFile.parse?_eq_some_iff.1 h).1
    have hread' := (ClassFile.parse?_eq_some_iff.1 h').1
    rw [hread, hdisplay, ← hread', h'] at h
    exact (Option.some.inj h).symm
  · intro f e he
    have hparse := f.parse_of_read he
    refine ⟨Enumeration.exists_title hparse, ?_⟩
    intro s hs
    refine ⟨Session.gains_add_of_enumeration hs he, ?_⟩
    intro source g v hg hv
    have hfound := Header.fragmentAt_of_mem hg
    have hmember := g.kind_of_read_member hv
    refine ⟨hfound.exists_standsUnder hmember, ?_⟩
    intro dotted hunder
    obtain ⟨owner, howner, hread⟩ := hfound.owner_of_standsUnder hmember hunder
    refine ⟨owner, Session.gains_add_of_member hs hv howner, ?_⟩
    have hnamed := Enumeration.owner_named hparse
    rw [ClassFile.parse?_eq_some_iff] at hread
    constructor
    · rintro rfl
      exact hread.1
    · intro hsame
      have hfile := ClassFile.parse?_display hnamed
      rw [← hsame, ClassFile.parse?_eq_some_iff.2 hread] at hfile
      exact Option.some.inj hfile

def scaleLine : Text :=
  "\tfloat   Scale;   // 0x40 (0x4) [0x0] ( CPF_Edit )"

def planeBlock : Text :=
  "// Enum Core.Object.EPlane\n\x7b\nPLANE_XY = 1\n\x7d;\n"

def scaleHeader : Text :=
  "// Class Core.Object\n" ++ scaleLine ++ "\n" ++ planeBlock

theorem standsUnder_scaleHeader : Header.StandsUnder (Text.lines scaleHeader) 1 "Core.Object" := by
  have htitle : (Text.lines scaleHeader)[0]? = some ("// Class Core.Object" : Text) := by
    decide +kernel
  have hmember : (Text.lines scaleHeader)[1]? = some scaleLine := by decide +kernel
  refine .intro Nat.zero_lt_one htitle (by decide +kernel) ?_ ?_
  · rintro ⟨i, hi, hopens, -⟩
    obtain rfl := Nat.le_zero.1 hi
    exact absurd (hopens.marker htitle) (by decide +kernel)
  · intro i hi hle _ line sec hline hbegins
    obtain rfl : i = 1 := Nat.le_antisymm hle hi
    cases hline.symm.trans hmember
    have hplain : Header.Line.of scaleLine = .plain := by decide +kernel
    rw [Header.of_eq_marker_iff.2 hbegins] at hplain
    cases hplain

theorem names_agree_scale :
    ∃ (f g : Fragment) (v : Variable) (e : Enumeration),
      Header.fragments scaleHeader = [g, f] ∧ f.read.result = .ok (.enumeration e) ∧
      g.read.result = .ok (.member v) ∧
      ClassFile.parse? "Core.Object" = some e.qualifier.owner ∧
      Catalog.Gains {} (({} : Session).add f).1.catalog e.qualifier.owner [e] [] ∧
      Catalog.Gains {} (({} : Session).add g).1.catalog e.qualifier.owner []
        [v.inClass e.qualifier.owner] := by
  have hscan : Header.fragments scaleHeader =
      [⟨.member, some ⟨"Core", "Object"⟩, scaleLine, 2⟩, ⟨.enumeration, none, planeBlock, 3⟩] := by
    decide +kernel
  have hmember : (Fragment.mk .member (some ⟨"Core", "Object"⟩) scaleLine 2).read.result =
      .ok (.member ⟨none, "Scale", "float", ⟨[.edit], by decide⟩⟩) := by
    decide +kernel
  have hplane : (Fragment.mk .enumeration none planeBlock 3).read.result =
      .ok (.enumeration ⟨⟨"Core", "Object", "EPlane"⟩, ["PLANE_XY"]⟩) := by
    decide +kernel
  obtain ⟨-, hread, -, -, hfiled⟩ := names_agree
  obtain ⟨-, hgains⟩ := hfiled _ _ hplane
  obtain ⟨hplaneGains, hmembers⟩ := hgains {} Catalog.sorted_empty
  obtain ⟨-, hunder⟩ := hmembers scaleHeader _ _ (hscan ▸ .head _) hmember
  obtain ⟨owner, hscaleGains, hsame⟩ := hunder "Core.Object" standsUnder_scaleHeader
  obtain rfl := hsame.2 (by decide +kernel)
  refine ⟨_, _, _, _, hscan, hplane, hmember, ?_, hplaneGains, hscaleGains⟩
  exact hread "Core" "Object" ⟨by decide, by decide⟩ ⟨by decide, by decide⟩

end UnrealDecl
