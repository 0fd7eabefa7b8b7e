import UnrealDecl.Proofs.Conversion.Grouping
import UnrealDecl.Proofs.Declaration.Rendering

namespace UnrealDecl

namespace ClassBody

/-- The declarations of a body in the order in which they are written. -/
def declarations (b : ClassBody) : List Declaration :=
  b.enumerations.map .enumeration ++ b.vars.map .member

theorem flatMap_render_declarations (b : ClassBody) :
    b.declarations.flatMap Declaration.render = b.render := by
  rw [declarations, List.flatMap_append, List.flatMap_map, List.flatMap_map]
  rfl

theorem mem_declarations_addTo {d e : Declaration} {b : ClassBody}
    (h : e ∈ (d.addTo b).declarations) : e = d ∨ e ∈ b.declarations := by
  cases d <;>
    simp only [Declaration.addTo, addEnumeration, addVariable, declarations, List.map_append,
      List.map_cons, List.map_nil, List.mem_append, List.mem_singleton] at h ⊢ <;>
    tauto

theorem mem_declarations_applyBody {skips : SkipList} {key : ClassFile} {d : Declaration}
    {b : ClassBody} (h : d ∈ (skips.applyBody key b).declarations) : d ∈ b.declarations := by
  rcases List.mem_append.1 h with h | h
  · exact List.mem_append_left _ h
  · exact List.mem_append_right _ (List.map_subset _ (List.filter_subset_self _) h)

theorem of_outlines_eq {b c : ClassBody}
    (h : b.declarations.map Declaration.outline = c.declarations.map Declaration.outline) :
    b.enumerations.map (fun e => (e.name, e.members)) =
        c.enumerations.map (fun e => (e.name, e.members)) ∧
      b.vars.map Variable.render = c.vars.map Variable.render := by
  have hleft (b : ClassBody) : (b.declarations.map Declaration.outline).filterMap Sum.getLeft? =
      b.enumerations.map fun e => (e.name, e.members) := by
    simp [declarations, Declaration.outline, List.filterMap_map, Function.comp_def]
  have hright (b : ClassBody) : (b.declarations.map Declaration.outline).filterMap Sum.getRight? =
      b.vars.map Variable.render := by
    simp [declarations, Declaration.outline, List.filterMap_map, Function.comp_def]
  rw [← hleft, ← hleft, ← hright, ← hright, h]
  exact ⟨rfl, rfl⟩

end ClassBody

/-- Every declaration in a catalog has a property. -/
def Catalog.All (p : Declaration → Prop) (c : Catalog) : Prop :=
  ∀ b ∈ c.bodies, ∀ d ∈ b.declarations, p d

namespace Catalog

variable {p : Declaration → Prop} {c : Catalog}

theorem All.insert {d : Declaration} (hc : c.All p) (hd : p d) : (c.insert d).All p := by
  intro b hb e he
  obtain ⟨key, hb⟩ := mem_bodies_iff.1 hb
  rcases mem_insert hb with hb | ⟨-, old, rfl, hold⟩
  · exact hc b (mem_bodies_iff.2 ⟨key, hb⟩) e he
  · rcases ClassBody.mem_declarations_addTo he with rfl | he
    · exact hd
    · rcases hold with rfl | hold
      · exact absurd he List.not_mem_nil
      · exact hc old (mem_bodies_iff.2 ⟨key, hold⟩) e he

theorem All.apply (hc : c.All p) (skips : SkipList) : (skips.apply c).All p := by
  intro b hb d hd
  obtain ⟨key, hb⟩ := mem_bodies_iff.1 hb
  obtain ⟨old, hold, rfl, -⟩ := SkipList.mem_apply_iff.1 hb
  exact hc old (mem_bodies_iff.2 ⟨key, hold⟩) d (ClassBody.mem_declarations_applyBody hd)

end Catalog

namespace Session

/-- A session that fragments of headers and skip lists lead to, in any order. -/
inductive Scanned : Session → Prop
  | start : Scanned {}
  | add {s : Session} {source : Text} {f : Fragment} (cut : f ∈ Header.fragments source)
      (scanned : Scanned s) : Scanned (s.add f).1
  | skip {s : Session} (skips : SkipList) (scanned : Scanned s) : Scanned (s.skip skips).1

theorem Scanned.addAll {s : Session} {fs : List Fragment} (h : s.Scanned)
    (hfs : ∀ f ∈ fs, ∃ source, f ∈ Header.fragments source) : (s.addAll fs).1.Scanned := by
  induction fs generalizing s with
  | nil => exact h
  | cons f fs ih =>
    obtain ⟨source, hf⟩ := hfs f (.head _)
    exact ih (.add hf h) fun g hg => hfs g (.tail _ hg)

/-- What holds of every declaration in a header holds of every declaration that is kept. -/
theorem Scanned.all {s : Session} {p : Declaration → Prop} (h : s.Scanned)
    (hp : ∀ (source : Text) (f : Fragment), f ∈ Header.fragments source →
      ∀ d, f.declared? = some d → p d) : s.catalog.All p := by
  induction h with
  | start => exact fun b hb => absurd hb List.not_mem_nil
  | @add s source f cut _ ih =>
    rw [s.catalog_add]
    cases hd : f.declared? with
    | none => exact ih
    | some d => exact ih.insert (hp source f cut d hd)
  | skip skips _ ih => exact ih.apply skips

end Session

theorem Header.feed_not_mem_text {source : Text} {f : Fragment} (h : f ∈ fragments source)
    (hk : f.kind = .member) : '\n' ∉ f.text := by
  obtain ⟨i, hf⟩ := mem_fragments_iff.1 h
  cases hf with
  | block => cases hk
  | member here => exact Text.feed_not_mem_of_mem_lines (List.mem_of_getElem? here)

theorem Header.legible_of_declared? {source : Text} {f : Fragment} (h : f ∈ fragments source)
    {d : Declaration} (hd : f.declared? = some d) : d.Legible := by
  rcases f.exists_of_declared? hd with ⟨e, he, rfl⟩ | ⟨v, owner, hk, -, hv, rfl⟩
  · exact Enumeration.feed_not_mem_rows he
  · intro row hrow
    obtain rfl := List.mem_singleton.1 hrow
    rw [Variable.row_inClass]
    exact Variable.feed_not_mem_row (feed_not_mem_text h hk) hv

/-- The text of a class file tells its enumerations and its variables: two class files with one
text, of whichever sessions, declare the same in the same order. -/
theorem declarations_of_text {s t : Session} (hs : s.Scanned) (ht : t.Scanned) {b c : ClassBody}
    (hb : b ∈ s.catalog.bodies) (hc : c ∈ t.catalog.bodies) (h : b.render = c.render) :
    b.enumerations.map (fun e => (e.name, e.members)) =
        c.enumerations.map (fun e => (e.name, e.members)) ∧
      b.vars.map Variable.render = c.vars.map Variable.render := by
  have hlegible {s : Session} (hs : s.Scanned) : s.catalog.All Declaration.Legible :=
    hs.all fun _ _ hf _ hd => Header.legible_of_declared? hf hd
  rw [← b.flatMap_render_declarations, ← c.flatMap_render_declarations] at h
  exact ClassBody.of_outlines_eq
    (Declaration.outlines_eq_of_render (hlegible hs b hb) (hlegible ht c hc) h)

def axisHeader (dotted : Text) : Text :=
  Text.unlines ["// Enum " ++ dotted ++ ".EAxis", "\x7b", "  AXIS_X \x7b, = 1,", "=0", "\x7d",
    "// Class " ++ dotted, "int   Axis;   // 0x0 (0x4) [0x0] ( CPF_Edit )"]

def axisSession (dotted : Text) : Session :=
  (({} : Session).addAll (Header.fragments (axisHeader dotted))).1

def axisBody (file : ClassFile) (enumeration : Qualifier) : ClassBody :=
  ⟨file, [⟨enumeration, ["  AXIS_X \x7b,", []]⟩],
    [⟨some file, "Axis", "int", ⟨[.edit], by decide⟩⟩]⟩

theorem scanned_axisSession (dotted : Text) : (axisSession dotted).Scanned :=
  Session.Scanned.start.addAll fun _ hf => ⟨_, hf⟩

theorem declarations_of_text_axis :
    let b := axisBody ⟨"Core", "Object"⟩ ⟨"Core", "Object", "EAxis"⟩
    let c := axisBody ⟨"Engine", "Actor"⟩ ⟨"Engine", "Actor", "EAxis"⟩
    b ∈ (axisSession "Core.Object").catalog.bodies ∧
      c ∈ (axisSession "Engine.Actor").catalog.bodies ∧ b ≠ c ∧ b.render = c.render ∧
      b.enumerations.map (fun e => (e.name, e.members)) =
        c.enumerations.map (fun e => (e.name, e.members)) ∧
      b.vars.map Variable.render = c.vars.map Variable.render := by
  intro b c
  have hb : b ∈ (axisSession "Core.Object").catalog.bodies := by decide +kernel
  have hc : c ∈ (axisSession "Engine.Actor").catalog.bodies := by decide +kernel
  have htext : b.render = c.render := by decide +kernel
  refine ⟨hb, hc, by decide, htext, ?_⟩
  exact declarations_of_text (scanned_axisSession _) (scanned_axisSession _) hb hc htext

end UnrealDecl
