import UnrealDecl.Proofs.Conversion.Filing
import UnrealDecl.Proofs.Header.Specification

namespace UnrealDecl

def Declaration.enumerationIn? (file : ClassFile) : Declaration → Option Enumeration
  | member _ => none
  | enumeration e => if e.qualifier.owner = file then some e else none

def Declaration.memberIn? (file : ClassFile) : Declaration → Option Variable
  | member v => if v.owner = some file then some v else none
  | enumeration _ => none

/-- The body that declarations make up for a class file, in their order. -/
def ClassBody.gather (file : ClassFile) (ds : List Declaration) : ClassBody :=
  ⟨file, ds.filterMap (Declaration.enumerationIn? file), ds.filterMap (Declaration.memberIn? file)⟩

theorem Declaration.addTo_eq (d : Declaration) (file : ClassFile) (b : ClassBody) :
    (if d.owner? = some file then d.addTo b else b) =
      ⟨b.file, b.enumerations ++ (d.enumerationIn? file).toList,
        b.vars ++ (d.memberIn? file).toList⟩ := by
  cases d with
  | enumeration e =>
    by_cases h : e.qualifier.owner = file <;>
      simp [owner?, enumerationIn?, memberIn?, addTo, ClassBody.addEnumeration, h]
  | member v =>
    by_cases h : v.owner = some file <;>
      simp [owner?, enumerationIn?, memberIn?, addTo, ClassBody.addVariable, h]

theorem ClassBody.gather_cons (file : ClassFile) (d : Declaration) (ds : List Declaration) :
    gather file (d :: ds) =
      ⟨file, (d.enumerationIn? file).toList ++ (gather file ds).enumerations,
        (d.memberIn? file).toList ++ (gather file ds).vars⟩ := by
  simp only [gather, List.filterMap_cons]
  cases d.enumerationIn? file <;> cases d.memberIn? file <;> rfl

namespace Catalog

theorem Sorted.bodyOf_insert {c : Catalog} (hs : c.Sorted) (d : Declaration) (file : ClassFile) :
    (c.insert d).bodyOf file =
      if d.owner? = some file then d.addTo (c.bodyOf file) else c.bodyOf file := by
  rw [bodyOf, Catalog.insert]
  cases d.owner? with
  | none => rfl
  | some owner =>
    simp only [hs.body?_modify, Option.some.injEq]
    by_cases h : file = owner
    · subst h
      rw [if_pos rfl, if_pos rfl]
      rfl
    · rw [if_neg h, if_neg (Ne.symm h)]
      rfl

theorem Sorted.bodyOf_insertAll {c : Catalog} (hs : c.Sorted) (ds : List Declaration)
    (file : ClassFile) :
    (c.insertAll ds).bodyOf file =
      ⟨(c.bodyOf file).file,
        (c.bodyOf file).enumerations ++ (ClassBody.gather file ds).enumerations,
        (c.bodyOf file).vars ++ (ClassBody.gather file ds).vars⟩ := by
  induction ds generalizing c with
  | nil =>
    change c.bodyOf file = _
    rw [ClassBody.gather, List.filterMap_nil, List.filterMap_nil, List.append_nil,
      List.append_nil]
  | cons d ds ih =>
    have hi : c.insertAll (d :: ds) = (c.insert d).insertAll ds := rfl
    rw [hi, ih (hs.insert d), hs.bodyOf_insert, d.addTo_eq, ClassBody.gather_cons,
      List.append_assoc, List.append_assoc]

theorem bodyOf_insertAll_empty (ds : List Declaration) (file : ClassFile) :
    (Catalog.insertAll {} ds).bodyOf file = ClassBody.gather file ds :=
  sorted_empty.bodyOf_insertAll ds file

end Catalog

/-- What a body holds belongs to its class file, whose name can be read back. -/
structure ClassBody.WellFormed (b : ClassBody) : Prop where
  named : b.file.Named
  enumerations : ∀ e ∈ b.enumerations, e.qualifier.owner = b.file
  vars : ∀ v ∈ b.vars, v.owner = some b.file

/-- The keys are in order, and under each stands the body of its class file, with declarations of
that class file only. -/
structure Catalog.WellFormed (c : Catalog) : Prop where
  sorted : c.Sorted
  keyed : c.Keyed
  nonempty : ∀ b ∈ c.bodies, b.isEmpty = false
  bodies : ∀ b ∈ c.bodies, b.WellFormed

theorem ClassBody.WellFormed.addTo {b : ClassBody} {d : Declaration} (hb : b.WellFormed)
    (hd : d.owner? = some b.file) : (d.addTo b).WellFormed := by
  cases d with
  | enumeration e =>
    refine ⟨hb.named, fun e' he => ?_, hb.vars⟩
    rcases List.mem_append.1 he with he | he
    · exact hb.enumerations e' he
    · obtain rfl := List.mem_singleton.1 he
      exact Option.some.inj hd
  | member v =>
    refine ⟨hb.named, hb.enumerations, fun v' hv => ?_⟩
    rcases List.mem_append.1 hv with hv | hv
    · exact hb.vars v' hv
    · obtain rfl := List.mem_singleton.1 hv
      exact hd

theorem ClassBody.isEmpty_addTo (d : Declaration) (b : ClassBody) :
    (d.addTo b).isEmpty = false := by
  cases d <;> simp [Declaration.addTo, addEnumeration, addVariable, isEmpty]

theorem SkipList.mem_apply_iff {skips : SkipList} {c : Catalog} {key : ClassFile} {b : ClassBody} :
    (key, b) ∈ (skips.apply c).units ↔
      ∃ old, (key, old) ∈ c.units ∧ b = skips.applyBody key old ∧ b.isEmpty = false := by
  rw [apply, List.mem_filter, List.mem_map]
  constructor
  · rintro ⟨⟨⟨other, old⟩, hold, heq⟩, hne⟩
    cases heq
    exact ⟨old, hold, rfl, by simpa using hne⟩
  · rintro ⟨old, hold, rfl, hne⟩
    exact ⟨⟨(key, old), hold, rfl⟩, by simpa using hne⟩

namespace Catalog

theorem WellFormed.empty : WellFormed {} where
  sorted := sorted_empty
  keyed := keyed_empty
  nonempty _ hb := absurd hb List.not_mem_nil
  bodies _ hb := absurd hb List.not_mem_nil

theorem mem_insert {c : Catalog} {d : Declaration} {key : ClassFile} {b : ClassBody}
    (h : (key, b) ∈ (c.insert d).units) :
    (key, b) ∈ c.units ∨ d.owner? = some key ∧
      ∃ old, b = d.addTo old ∧ (old = ⟨key, [], []⟩ ∨ (key, old) ∈ c.units) := by
  rw [Catalog.insert] at h
  cases ho : d.owner? with
  | none =>
    rw [ho] at h
    exact .inl h
  | some owner =>
    rw [ho] at h
    rcases mem_modifyUnits h with h | ⟨rfl, rfl | ⟨old, hold, rfl⟩⟩
    · exact .inl h
    · exact .inr ⟨rfl, _, rfl, .inl rfl⟩
    · exact .inr ⟨rfl, old, rfl, .inr hold⟩

theorem nonempty_insert {c : Catalog} (hc : ∀ b ∈ c.bodies, b.isEmpty = false)
    (d : Declaration) : ∀ b ∈ (c.insert d).bodies, b.isEmpty = false := by
  intro b hb
  obtain ⟨key, hb⟩ := mem_bodies_iff.1 hb
  rcases mem_insert hb with hb | ⟨-, old, rfl, -⟩
  · exact hc b (mem_bodies_iff.2 ⟨key, hb⟩)
  · exact ClassBody.isEmpty_addTo d old

theorem WellFormed.insert {c : Catalog} {d : Declaration} (hc : c.WellFormed)
    (hd : ∀ file, d.owner? = some file → file.Named) : (c.insert d).WellFormed where
  sorted := hc.sorted.insert d
  keyed := hc.keyed.insert d
  nonempty := nonempty_insert hc.nonempty d
  bodies b hb := by
    obtain ⟨key, hb⟩ := mem_bodies_iff.1 hb
    rcases mem_insert hb with hb | ⟨ho, old, rfl, rfl | hold⟩
    · exact hc.bodies b (mem_bodies_iff.2 ⟨key, hb⟩)
    · have hempty : (ClassBody.mk key [] []).WellFormed := ⟨hd _ ho, by simp, by simp⟩
      exact hempty.addTo ho
    · obtain rfl := hc.keyed key old hold
      exact (hc.bodies old (mem_bodies_iff.2 ⟨_, hold⟩)).addTo ho

theorem WellFormed.apply {c : Catalog} (hc : c.WellFormed) (skips : SkipList) :
    (skips.apply c).WellFormed where
  sorted := by
    have hmap : (c.units.map fun unit => (unit.1, skips.applyBody unit.1 unit.2)).Pairwise
        fun u v => u.1.before v.1 = true :=
      List.pairwise_map.2 hc.sorted
    exact hmap.filter _
  keyed key b hb := by
    obtain ⟨old, hold, rfl, -⟩ := SkipList.mem_apply_iff.1 hb
    exact hc.keyed key old hold
  nonempty b hb := by
    obtain ⟨key, hb⟩ := mem_bodies_iff.1 hb
    obtain ⟨-, -, -, hne⟩ := SkipList.mem_apply_iff.1 hb
    exact hne
  bodies b hb := by
    obtain ⟨key, hb⟩ := mem_bodies_iff.1 hb
    obtain ⟨old, hold, rfl, -⟩ := SkipList.mem_apply_iff.1 hb
    obtain ⟨named, enumerations, vars⟩ := hc.bodies old (mem_bodies_iff.2 ⟨key, hold⟩)
    exact ⟨named, enumerations, fun v hv => vars v (List.mem_filter.1 hv).1⟩

theorem WellFormed.body?_eq_some_iff {c : Catalog} (hc : c.WellFormed) {file : ClassFile}
    {b : ClassBody} : c.body? file = some b ↔ b ∈ c.bodies ∧ b.file = file := by
  rw [hc.sorted.body?_eq_some_iff, hc.keyed.mem_bodies_iff]
  constructor
  · intro hb
    obtain rfl := hc.keyed file b hb
    exact ⟨hb, rfl⟩
  · rintro ⟨hb, rfl⟩
    exact hb

theorem WellFormed.body?_of_mem {c : Catalog} (hc : c.WellFormed) {b : ClassBody}
    (hb : b ∈ c.bodies) : c.body? b.file = some b :=
  hc.body?_eq_some_iff.2 ⟨hb, rfl⟩

theorem WellFormed.pairwise_bodies {c : Catalog} (hc : c.WellFormed) :
    c.bodies.Pairwise fun a b => a.file.before b.file = true :=
  hc.keyed.pairwise_bodies hc.sorted

theorem WellFormed.nodup_bodies {c : Catalog} (hc : c.WellFormed) : c.bodies.Nodup := by
  apply hc.pairwise_bodies.imp
  rintro a _ h rfl
  exact ClassFile.ne_of_before h rfl

end Catalog

/-- The class file of a fragment, where it has one, was read from a dotted name. -/
def Fragment.OwnerRead (f : Fragment) : Prop :=
  ∀ owner, f.owner = some owner → ∃ dotted, ClassFile.parse? dotted = some owner

theorem Header.ownerRead_of_mem {source : Text} {f : Fragment} (h : f ∈ fragments source) :
    f.OwnerRead := by
  intro owner ho
  cases hk : f.kind with
  | member =>
    obtain ⟨owner', dotted, ho', hdotted⟩ := exists_owner_of_mem h hk
    cases ho.symm.trans ho'
    exact ⟨dotted, hdotted⟩
  | enumeration =>
    obtain ⟨i, hf⟩ := mem_fragments_iff.1 h
    cases hf with
    | block => cases ho
    | member => cases hk

theorem Fragment.named_of_declared? {f : Fragment} {d : Declaration} (hf : f.OwnerRead)
    (hd : f.declared? = some d) : ∀ file, d.owner? = some file → file.Named := by
  intro file ho
  rcases f.exists_of_declared? hd with ⟨e, he, rfl⟩ | ⟨v, owner, -, hown, -, rfl⟩
  · cases ho
    exact Enumeration.owner_named he
  · cases ho
    obtain ⟨dotted, hdot⟩ := hf _ hown
    exact (ClassFile.parse?_eq_some_iff.1 hdot).2

/-- A session that fragments and skip lists lead to, in any order. -/
inductive Session.Reachable : Session → Prop
  | start : Reachable {}
  | add {s : Session} {f : Fragment} (read : f.OwnerRead) (reached : Reachable s) :
      Reachable (s.add f).1
  | skip {s : Session} (skips : SkipList) (reached : Reachable s) : Reachable (s.skip skips).1

theorem Session.Reachable.wellFormed {s : Session} (h : Reachable s) :
    s.catalog.WellFormed := by
  induction h with
  | start => exact Catalog.WellFormed.empty
  | @add s f read _ ih =>
    rw [s.catalog_add]
    cases hd : f.declared? with
    | none => exact ih
    | some d => exact ih.insert (f.named_of_declared? read hd)
  | skip skips _ ih => exact ih.apply skips

theorem Session.Reachable.addAll {s : Session} {fs : List Fragment} (h : Reachable s)
    (hfs : ∀ f ∈ fs, f.OwnerRead) : Reachable (s.addAll fs).1 := by
  induction fs generalizing s with
  | nil => exact h
  | cons f fs ih => exact ih (.add (hfs f (.head _)) h) fun g hg => hfs g (.tail _ hg)

/-- The enumerations that fragments are read as and that belong to a class file, in order. -/
def enumerationsOf (file : ClassFile) (fs : List Fragment) : List Enumeration :=
  (fs.filterMap Fragment.asEnumeration?).filter fun e => e.qualifier.owner = file

/-- The variables that fragments of a class file are read as, in order. -/
def variablesOf (file : ClassFile) (fs : List Fragment) : List Variable :=
  ((fs.filter fun f => f.owner = some file).filterMap Fragment.asVariable?).map (·.inClass file)

theorem bind_enumerationIn? (f : Fragment) (file : ClassFile) :
    f.declared?.bind (Declaration.enumerationIn? file) =
      f.asEnumeration?.filter fun e => e.qualifier.owner = file := by
  cases hk : f.kind with
  | enumeration =>
    rw [Fragment.declared?_enumeration hk]
    cases f.asEnumeration? with
    | none => rfl
    | some e =>
      by_cases h : e.qualifier.owner = file <;>
        simp [Declaration.enumerationIn?, Option.filter, h]
  | member =>
    rw [Fragment.declared?_member hk, Fragment.asEnumeration?, hk]
    cases f.owner with
    | none => rfl
    | some owner => cases f.asVariable? <;> rfl

theorem bind_memberIn? (f : Fragment) (file : ClassFile) :
    f.declared?.bind (Declaration.memberIn? file) =
      if f.owner = some file then f.asVariable?.map (·.inClass file) else none := by
  cases hk : f.kind with
  | enumeration =>
    rw [Fragment.declared?_enumeration hk, Fragment.asVariable?, hk]
    cases f.asEnumeration? <;> simp [Declaration.memberIn?]
  | member =>
    rw [Fragment.declared?_member hk]
    cases ho : f.owner with
    | none => simp
    | some owner =>
      by_cases h : owner = file <;> cases f.asVariable? <;>
        simp [Declaration.memberIn?, Variable.inClass, h]

theorem gather_declared (file : ClassFile) (fs : List Fragment) :
    ClassBody.gather file (fs.filterMap Fragment.declared?) =
      ⟨file, enumerationsOf file fs, variablesOf file fs⟩ := by
  have he : (fs.filterMap Fragment.declared?).filterMap (Declaration.enumerationIn? file) =
      enumerationsOf file fs := by
    rw [List.filterMap_filterMap, enumerationsOf, List.filter_filterMap]
    exact List.filterMap_congr fun f _ => bind_enumerationIn? f file
  have hv : (fs.filterMap Fragment.declared?).filterMap (Declaration.memberIn? file) =
      variablesOf file fs := by
    rw [List.filterMap_filterMap, variablesOf, List.filterMap_filter, List.map_filterMap]
    refine List.filterMap_congr fun f _ => ?_
    rw [bind_memberIn?]
    by_cases h : f.owner = some file <;> simp [h]
  rw [ClassBody.gather, he, hv]

theorem Catalog.WellFormed.body?_eq {c : Catalog} (hc : c.WellFormed) (file : ClassFile) :
    c.body? file = if (c.bodyOf file).isEmpty then none else some (c.bodyOf file) := by
  rw [bodyOf]
  cases h : c.body? file with
  | none => rfl
  | some b =>
    have hb := hc.nonempty b (mem_bodies_iff.2 ⟨file, mem_of_body? h⟩)
    simp [hb]

/-- What a class file holds after some fragments is what they declare in it. -/
theorem body?_addAll {fs : List Fragment} (hfs : ∀ f ∈ fs, f.OwnerRead) (file : ClassFile) :
    (({} : Session).addAll fs).1.catalog.body? file =
      let b := ClassBody.gather file (fs.filterMap Fragment.declared?)
      if b.isEmpty then none else some b := by
  have hc := (Session.Reachable.start.addAll hfs).wellFormed
  rw [hc.body?_eq, Session.catalog_addAll, Catalog.bodyOf_insertAll_empty]

/-- Each class file holds what its fragments are read as, in their order. However fragments and skip
lists alternate, the keys stay in order, and each is the class file of all that stands under it. -/
theorem grouping_exact :
    (∀ fs : List Fragment, (∀ f ∈ fs, f.OwnerRead) → ∀ file : ClassFile,
      (({} : Session).addAll fs).1.catalog.body? file =
        if enumerationsOf file fs = [] ∧ variablesOf file fs = [] then none
        else some ⟨file, enumerationsOf file fs, variablesOf file fs⟩) ∧
    ∀ s : Session, s.Reachable → s.catalog.Sorted ∧
      ∀ key b, (key, b) ∈ s.catalog.units →
        s.catalog.body? key = some b ∧ b.file = key ∧ b.isEmpty = false ∧
          (∀ e ∈ b.enumerations, e.qualifier.owner = key) ∧
          (∀ v ∈ b.vars, v.owner = some key) ∧ key.Named := by
  constructor
  · intro fs hfs file
    rw [body?_addAll hfs, gather_declared]
    simp only [ClassBody.isEmpty, Bool.and_eq_true, List.isEmpty_iff]
  · intro s hs
    have hc := hs.wellFormed
    refine ⟨hc.sorted, fun key b hb => ?_⟩
    obtain rfl := hc.keyed key b hb
    have hmem : b ∈ s.catalog.bodies := Catalog.mem_bodies_iff.2 ⟨_, hb⟩
    obtain ⟨named, enumerations, vars⟩ := hc.bodies b hmem
    exact ⟨hc.body?_of_mem hmem, rfl, hc.nonempty b hmem, enumerations, vars, named⟩

def actorFragments : List Fragment :=
  [⟨.member, ClassFile.parse? "Engine.Actor", "int   Speed;   // 0x0 (0x4) [0x0] ( CPF_Edit )", 1⟩,
    ⟨.enumeration, none, "// Enum Engine.Actor.EPhysics\n\x7b\nPHYS_None = 0,\n\x7d", 2⟩]

theorem grouping_exact_actor :
    (∀ f ∈ actorFragments, f.OwnerRead) ∧
    (({} : Session).addAll actorFragments).1.catalog.body? ⟨"Engine", "Actor"⟩ =
      some ⟨⟨"Engine", "Actor"⟩, [⟨⟨"Engine", "Actor", "EPhysics"⟩, ["PHYS_None"]⟩],
        [⟨some ⟨"Engine", "Actor"⟩, "Speed", "int", ⟨[.edit], by decide⟩⟩]⟩ ∧
    ((({} : Session).addAll actorFragments).1.skip ⟨["Actor"], []⟩).1.Reachable ∧
    ∃ b, (⟨"Engine", "Actor"⟩, b) ∈
        ((({} : Session).addAll actorFragments).1.skip ⟨["Actor"], []⟩).1.catalog.units ∧
      b.vars = [] ∧ b.file = ⟨"Engine", "Actor"⟩ ∧ b.isEmpty = false ∧
      ClassFile.Named ⟨"Engine", "Actor"⟩ := by
  have hread : ∀ f ∈ actorFragments, f.OwnerRead := by
    intro f hf owner ho
    rcases List.mem_cons.1 hf with rfl | hf
    · exact ⟨"Engine.Actor", ho⟩
    · obtain rfl := List.mem_singleton.1 hf
      cases ho
  have hreach : ((({} : Session).addAll actorFragments).1.skip ⟨["Actor"], []⟩).1.Reachable :=
    .skip _ (Session.Reachable.start.addAll hread)
  refine ⟨hread, ?_, hreach, ?_⟩
  · rw [grouping_exact.1 actorFragments hread]
    decide +kernel
  · have hunit : (⟨"Engine", "Actor"⟩,
        ⟨⟨"Engine", "Actor"⟩, [⟨⟨"Engine", "Actor", "EPhysics"⟩, ["PHYS_None"]⟩], []⟩) ∈
        ((({} : Session).addAll actorFragments).1.skip ⟨["Actor"], []⟩).1.catalog.units := by
      decide +kernel
    obtain ⟨-, hfile, hne, -, -, hnamed⟩ := (grouping_exact.2 _ hreach).2 _ _ hunit
    exact ⟨_, hunit, rfl, hfile, hne, hnamed⟩

end UnrealDecl
