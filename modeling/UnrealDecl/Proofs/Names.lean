import UnrealDecl.Declaration.Enumeration
import UnrealDecl.Proofs.Text.Words

namespace UnrealDecl

/-- A part of a dotted name is not empty and has no dot. -/
def IsPart (part : Text) : Prop :=
  part ≠ [] ∧ '.' ∉ part

theorem IsPart.isDot {part : Text} (h : IsPart part) : ∀ c ∈ part, (c == '.') = false := by
  intro c hc
  exact beq_eq_false_iff_ne.2 fun he => h.2 (he ▸ hc)

theorem occurs_dot {text : Text} : Text.occurs "." text = true ↔ '.' ∈ text :=
  Text.occurs_singleton

namespace ClassFile

/-- Both parts of the name of a class file can be read back. -/
structure Named (file : ClassFile) : Prop where
  package : IsPart file.package
  name : IsPart file.name

theorem parse?_display {file : ClassFile} (h : file.Named) : parse? file.display = some file := by
  have hcut : Text.cut "." file.display = some (file.package, file.name) := by
    simpa [display] using Text.cut_append h.package.2 [] file.name
  have hdot : Text.occurs "." file.name = false := Bool.eq_false_iff.2 (mt occurs_dot.1 h.name.2)
  simp only [parse?, hcut, hdot, List.isEmpty_eq_false_iff.2 h.package.1,
    List.isEmpty_eq_false_iff.2 h.name.1, Bool.or_self, Bool.false_eq_true, if_false]

/-- A name of a class file is read exactly where it was written from two parts. -/
theorem parse?_eq_some_iff {dotted : Text} {file : ClassFile} :
    parse? dotted = some file ↔ dotted = file.display ∧ file.Named := by
  constructor
  · intro h
    rw [parse?] at h
    split at h
    · rename_i package name hcut
      split at h
      · cases h
      · rename_i hparts
        simp only [Bool.or_eq_true, List.isEmpty_iff, not_or, occurs_dot] at hparts
        obtain ⟨⟨hp, hn⟩, hd⟩ := hparts
        cases h
        exact ⟨Text.eq_of_cut hcut, ⟨hp, Text.not_mem_of_cut hcut⟩, ⟨hn, hd⟩⟩
    · cases h
  · rintro ⟨rfl, h⟩
    exact parse?_display h

end ClassFile

namespace Qualifier

def display (q : Qualifier) : Text :=
  q.package ++ '.' :: (q.classFile ++ '.' :: q.name)

theorem parse?_display {q : Qualifier} (hp : IsPart q.package) (hc : IsPart q.classFile)
    (hn : IsPart q.name) : parse? q.display = some q := by
  have hs : Text.splitWhere (· == '.') q.display = [q.package, q.classFile, q.name] := by
    rw [display, Text.splitWhere_append hp.isDot rfl, Text.splitWhere_append hc.isDot rfl,
      Text.splitWhere_eq_singleton hn.isDot]
  simp only [parse?, hs, List.isEmpty_eq_false_iff.2 hp.1, List.isEmpty_eq_false_iff.2 hc.1,
    List.isEmpty_eq_false_iff.2 hn.1, Bool.or_self, Bool.false_eq_true, if_false]

theorem parse?_eq_some_iff {dotted : Text} {q : Qualifier} :
    parse? dotted = some q ↔
      dotted = q.display ∧ IsPart q.package ∧ IsPart q.classFile ∧ IsPart q.name := by
  constructor
  · intro h
    rw [parse?] at h
    split at h
    · rename_i package classFile name hs
      split at h
      · cases h
      · rename_i hne
        simp only [Bool.or_eq_true, List.isEmpty_iff, not_or] at hne
        cases h
        have hdot : ∀ piece ∈ [package, classFile, name], '.' ∉ piece := by
          intro piece hm hdot
          rw [← hs] at hm
          exact absurd (Text.sep_of_mem_splitWhere hm _ hdot) (by decide)
        have hjoin := Text.join_splitWhere '.' dotted
        rw [hs] at hjoin
        refine ⟨?_, ⟨hne.1.1, hdot package (by simp)⟩, ⟨hne.1.2, hdot classFile (by simp)⟩,
          ⟨hne.2, hdot name (by simp)⟩⟩
        rw [← hjoin]
        simp [Text.join, display]
    · cases h
  · rintro ⟨rfl, hp, hc, hn⟩
    exact parse?_display hp hc hn

theorem owner_named {dotted : Text} {q : Qualifier} (h : parse? dotted = some q) :
    q.owner.Named := by
  obtain ⟨-, hp, hc, -⟩ := parse?_eq_some_iff.1 h
  exact ⟨hp, hc⟩

end Qualifier

namespace Enumeration

/-- An enumeration is read from the name in its first line and the lines between its braces. -/
theorem parse_eq_ok_iff {block : Text} {e : Enumeration} :
    parse block = .ok e ↔ qualifierOf block = .ok e.qualifier ∧ ∃ body, body? block = some body ∧
      e.members = ((Text.lines body).filter fun line => !line.isEmpty).map memberName := by
  rw [parse]
  cases qualifierOf block with
  | error cause => simp
  | ok qualifier =>
    cases body? block with
    | none => simp
    | some body =>
      constructor
      · intro h
        cases h
        exact ⟨rfl, body, rfl, rfl⟩
      · intro ⟨hq, found, hbody, hmembers⟩
        cases hq
        cases hbody
        dsimp only
        rw [← hmembers]

theorem qualifierOf_eq_ok_iff {block : Text} {q : Qualifier} :
    qualifierOf block = .ok q ↔ ∃ title rest dotted, Text.lines block = title :: rest ∧
      (Text.words title)[2]? = some dotted ∧ Qualifier.parse? dotted = some q := by
  rw [qualifierOf]
  constructor
  · intro h
    split at h
    · cases h
    · rename_i title rest hlines
      split at h
      · cases h
      · rename_i dotted hword
        split at h
        · cases h
        · rename_i found hdotted
          cases h
          exact ⟨title, rest, dotted, hlines, hword, hdotted⟩
  · rintro ⟨title, rest, dotted, hlines, hword, hdotted⟩
    simp only [hlines, hword, hdotted]

theorem exists_dotted {block : Text} {e : Enumeration} (h : parse block = .ok e) :
    ∃ dotted, (∀ c ∈ dotted, isBlank c = false) ∧ Qualifier.parse? dotted = some e.qualifier := by
  obtain ⟨title, rest, dotted, -, hword, hdotted⟩ := qualifierOf_eq_ok_iff.1 (parse_eq_ok_iff.1 h).1
  exact ⟨dotted, (Text.mem_tokens (List.mem_of_getElem? hword)).2.1, hdotted⟩

theorem solid_name {block : Text} {e : Enumeration} (h : parse block = .ok e) :
    ∀ c ∈ e.name, isBlank c = false := by
  obtain ⟨dotted, hsolid, hq⟩ := exists_dotted h
  obtain ⟨hdotted, -, -, -⟩ := Qualifier.parse?_eq_some_iff.1 hq
  intro c hc
  apply hsolid
  rw [hdotted, Qualifier.display]
  exact List.mem_append_right _ (.tail _ (List.mem_append_right _ (.tail _ hc)))

theorem owner_named {block : Text} {e : Enumeration} (h : parse block = .ok e) :
    e.qualifier.owner.Named := by
  obtain ⟨dotted, -, hdotted⟩ := exists_dotted h
  exact Qualifier.owner_named hdotted

end Enumeration

end UnrealDecl
