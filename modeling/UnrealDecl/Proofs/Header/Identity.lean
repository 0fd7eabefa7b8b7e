import Mathlib.Data.List.Forall2
import UnrealDecl.Proofs.Header.RoundTrip

namespace UnrealDecl.Header

/-- A member in a header: its columns, and a comment that goes on after `// 0x`. -/
structure MemberRow extends MemberColumns where
  remark : Text
  feed : '\n' ∉ remark
  carriage : '\r' ∉ remark

namespace MemberRow

variable (r : MemberRow)

def line : Text :=
  r.text ++ ("// 0x" ++ r.remark)

theorem isLine_line : IsLine r.line := by
  have hcolumns : IsLine r.text := .of_subset r.text_subset (by decide) (by decide)
  have hoffset : IsLine "// 0x" := ⟨by decide, by decide⟩
  exact hcolumns.append (hoffset.append ⟨r.feed, r.carriage⟩)

/-- What the variable that is filed for a member has to do with the line of the member. -/
structure FiledAs (owner : ClassFile) (v : Variable) : Prop where
  read : (Variable.parse r.line).result.map (·.inClass owner) = .ok v
  typeName : v.typeName = r.type.scriptName
  cleaned : Member.clean r.name.text ≠ [] → v.name = Member.clean r.name.text
  kept : v.name = r.name.text ↔ ∀ word ∈ Member.clutter, ¬ word <:+: r.name.text

theorem filedAs_of_head {name : Text} (owner : ClassFile)
    (hh : Variable.head r.line = .ok (r.type.scriptName, name))
    (hc : Member.clean r.name.text ≠ [] → name = Member.clean r.name.text)
    (hk : name = r.name.text ↔ ∀ word ∈ Member.clutter, ¬ word <:+: r.name.text) :
    ∃ v, (Variable.parse r.line).result = .ok v ∧ r.FiledAs owner (v.inClass owner) := by
  have hread : ∃ modifiers, (Variable.parse r.line).result =
      .ok ⟨none, name, r.type.scriptName, modifiers⟩ := by
    rw [Variable.parse, hh]
    exact ⟨_, rfl⟩
  obtain ⟨modifiers, hread⟩ := hread
  exact ⟨_, hread, by rw [hread]; rfl, rfl, hc, hk⟩

theorem exists_filedAs (owner : ClassFile) :
    ∃ v, (Variable.parse r.line).result = .ok v ∧ r.FiledAs owner (v.inClass owner) := by
  by_cases hn : Member.clean r.name.text = []
  · obtain ⟨tail, hhead⟩ := r.exists_head_append hn ('/' :: ' ' :: '0' :: 'x' :: r.remark)
    refine r.filedAs_of_head owner hhead (fun hne => absurd hn hne) ?_
    rw [← Member.clean_eq_self_iff, hn]
    constructor
    · intro h
      have hslash : '/' ∈ r.name.text := h ▸ .head _
      exact absurd (r.name.subset hslash) (by decide)
    · intro h
      exact absurd h.symm r.name.nonempty
  · have hhead := r.head_append hn ("// 0x" ++ r.remark)
    refine r.filedAs_of_head owner hhead (fun _ => rfl) ?_
    exact Member.clean_eq_self_iff r.name.text

theorem names_eq {owner : ClassFile} {rows : List MemberRow} {vs : List Variable}
    (h : List.Forall₂ (fun (r : MemberRow) v => r.FiledAs owner v) rows vs)
    (hfree : ∀ r ∈ rows, ∀ word ∈ Member.clutter, ¬ word <:+: r.name.text) :
    vs.map (·.name) = rows.map (·.name.text) := by
  induction h with
  | nil => rfl
  | cons hr _ ih =>
    rw [List.map_cons, List.map_cons, hr.kept.2 (hfree _ (.head _)),
      ih fun r hm => hfree r (.tail _ hm)]

end MemberRow

/-- A class in a header, whose members are in columns. -/
structure ClassSection where
  package : Identifier
  classFile : Identifier
  name : Identifier
  rows : List MemberRow

namespace ClassSection

variable (s : ClassSection)

def bare : MemberSection :=
  ⟨.ofClass, s.package, s.classFile, s.name, []⟩

def owner : ClassFile :=
  s.bare.owner

def lines : List Text :=
  s.bare.title :: "// 0x003C" :: ("class " ++ s.name.text) :: "\x7b" :: "public:" ::
    (s.rows.map MemberRow.line ++ [MemberSection.footer, []])

/-- The variables that are filed for a class when its lines are converted. -/
def filed : List Variable :=
  ((({} : Session).addAll (fragments (Text.unlines s.lines))).1.catalog.bodyOf s.owner).vars

theorem isLine_lines : ∀ line ∈ s.lines, IsLine line := by
  have hsub : s.lines ⊆ s.rows.map MemberRow.line ++ s.bare.lines := by
    have hbare : s.bare.lines = s.bare.title :: "// 0x003C" :: ("class " ++ s.name.text) ::
        "\x7b" :: "public:" :: [MemberSection.footer, []] := rfl
    intro line h
    rw [lines] at h
    rw [hbare]
    grind
  intro line h
  rcases List.mem_append.1 (hsub h) with h | h
  · obtain ⟨r, -, rfl⟩ := List.mem_map.1 h
    exact r.isLine_line
  · exact s.bare.isLine_lines line h

theorem exists_declares_rows (rows : List MemberRow) (owner : ClassFile) :
    ∃ vs : List Variable,
      List.Forall₂ (fun (r : MemberRow) v => r.FiledAs owner (v.inClass owner)) rows vs ∧
      Declares (.ofClass owner) (rows.map MemberRow.line) (.ofClass owner)
        (vs.map fun v => .member (v.inClass owner)) := by
  induction rows with
  | nil => exact ⟨[], .nil, .nil _⟩
  | cons r rows ih =>
    obtain ⟨v, hv, hfiled⟩ := r.exists_filedAs owner
    obtain ⟨vs, hvs, hrows⟩ := ih
    have hline : Declares (.ofClass owner) [r.line] (.ofClass owner)
        [.member (v.inClass owner)] :=
      .member (r.not_marker_append _) (r.isMember_append r.remark) hv
    exact ⟨v :: vs, .cons hfiled hvs, hline.cons hrows⟩

theorem exists_declares :
    ∃ vs : List Variable,
      List.Forall₂ (fun (r : MemberRow) v => r.FiledAs s.owner (v.inClass s.owner)) s.rows vs ∧
      Declares .preamble s.lines (.ofClass s.owner)
        (vs.map fun v => .member (v.inClass s.owner)) := by
  obtain ⟨vs, hvs, hrows⟩ := exists_declares_rows s.rows s.owner
  have htitle : Declares .preamble [s.bare.title] (.ofClass s.owner) [] :=
    .marker s.bare.begins_title
  have hbody := (s.bare.declares_opening (.ofClass s.owner)).append
    (hrows.append (MemberSection.declares_closing (.ofClass s.owner)))
  have hall := htitle.cons hbody
  rw [List.nil_append, List.nil_append, List.append_nil] at hall
  exact ⟨vs, hvs, hall⟩

theorem filed_of_declares {vs : List Variable} (h : Declares .preamble s.lines (.ofClass s.owner)
    (vs.map fun v => .member (v.inClass s.owner))) :
    s.filed = vs.map fun v => v.inClass s.owner := by
  have hdeclared := filterMap_declared? (h.map_declared? s.isLine_lines)
  have howned : Declaration.memberIn? s.owner ∘ (fun v : Variable => .member (v.inClass s.owner)) =
      fun v : Variable => some (v.inClass s.owner) := by
    funext v
    simp [Declaration.memberIn?, Variable.inClass]
  have hvars : s.filed =
      (vs.map fun v : Variable => Declaration.member (v.inClass s.owner)).filterMap
        (Declaration.memberIn? s.owner) := by
    rw [filed, Session.catalog_addAll, hdeclared, Catalog.bodyOf_insertAll_empty]
    rfl
  rw [hvars, List.filterMap_map, howned, List.filterMap_eq_map']

/-- Of a class in columns each member is filed, in order, under what cleaning leaves of its name,
which is the name itself exactly where no clutter occurs in it. -/
theorem names_filed :
    List.Forall₂ (fun (r : MemberRow) v => r.FiledAs s.owner v) s.rows s.filed ∧
      ((∀ r ∈ s.rows, ∀ word ∈ Member.clutter, ¬ word <:+: r.name.text) →
        s.filed.map (·.name) = s.rows.map (·.name.text)) := by
  have hfiled : List.Forall₂ (fun (r : MemberRow) v => r.FiledAs s.owner v) s.rows s.filed := by
    obtain ⟨vs, hvs, hdeclares⟩ := s.exists_declares
    rw [s.filed_of_declares hdeclares, List.forall₂_map_right_iff]
    exact hvs
  exact ⟨hfiled, MemberRow.names_eq hfiled⟩

end ClassSection

def intRow (name : Identifier) (fits : name.text.length ≤ 46) : MemberRow where
  type := .single ⟨none, ⟨"int", by decide, by decide, by decide +kernel, by decide, by decide⟩,
    false⟩
  identifier := by decide
  typeFits := by decide
  name := name
  ending := .plain
  nameFits := Nat.succ_le_succ fits
  remark := "0040 (0x0004) [0x0000000000000000]              ( CPF_Edit )"
  feed := by decide
  carriage := by decide

def intClass (first second : Identifier) (h : first.text.length ≤ 46)
    (h' : second.text.length ≤ 46) : ClassSection :=
  ⟨⟨"Core", by decide⟩, ⟨"Object", by decide⟩, ⟨"UObject", by decide⟩,
    [intRow first h, intRow second h']⟩

theorem names_filed_health :
    (intClass ⟨"Health", by decide⟩ ⟨"Speed", by decide⟩ (by decide) (by decide)).filed.map
        (·.name) = ["Health", "Speed"] := by
  refine (ClassSection.names_filed _).2 fun r hr => ?_
  rcases List.mem_cons.1 hr with rfl | hr
  · decide
  · obtain rfl := List.mem_singleton.1 hr
    decide

/-- Two members of one class are filed under one name. -/
theorem names_filed_slot :
    let s := intClass ⟨"Slot", by decide⟩ ⟨"Slot1", by decide⟩ (by decide) (by decide)
    s.rows.map (·.name.text) = ["Slot", "Slot1"] ∧ s.filed.map (·.name) = ["Slot", "Slot"] := by
  constructor
  · decide
  · decide +kernel

end UnrealDecl.Header
