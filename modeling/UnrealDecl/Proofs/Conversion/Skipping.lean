import UnrealDecl.Proofs.Conversion.Accounting
import UnrealDecl.Proofs.Conversion.Grouping

namespace UnrealDecl

namespace SkipList

/-- Whether the text of a skip list names a class file, or a variable of it in one entry. -/
def names (s : SkipList) (file : ClassFile) (name : Text) : Bool :=
  s.classes.contains file.name || s.vars.contains (file.name ++ "." ++ name)

theorem mem_variablePairs {s : SkipList} {file name : Text} (h : '.' ∉ file) :
    (file, name) ∈ s.variablePairs ↔ file ++ "." ++ name ∈ s.vars := by
  rw [variablePairs, List.mem_filterMap]
  constructor
  · rintro ⟨entry, hentry, hcut⟩
    rw [← Text.eq_of_cut hcut]
    exact hentry
  · intro hentry
    refine ⟨_, hentry, ?_⟩
    simpa using Text.cut_append h [] name

theorem skips_eq_names (s : SkipList) {file : ClassFile} (h : file.Named) (name : Text) :
    s.skips file name = s.names file name := by
  rw [skips, names, List.contains_eq_mem, List.contains_eq_mem]
  congr 1
  exact decide_eq_decide.2 (mem_variablePairs h.name.2)

theorem variablePairs_filter (s : SkipList) :
    variablePairs ⟨s.classes, s.vars.filter (Text.occurs ".")⟩ = s.variablePairs := by
  rw [variablePairs, variablePairs, List.filterMap_filter]
  apply List.filterMap_congr
  intro entry _
  cases hcut : Text.cut "." entry <;> simp only [Text.occurs, hcut] <;> rfl

end SkipList

/-- Whether a fragment is read as a variable that a skip list names. -/
def Fragment.isSkipped (skips : SkipList) (f : Fragment) : Bool :=
  match f.owner, f.asVariable? with
  | some owner, some v => skips.names owner v.name
  | _, _ => false

theorem Fragment.isSkipped_eq_true_iff {skips : SkipList} {f : Fragment} :
    f.isSkipped skips = true ↔
      ∃ owner v, f.owner = some owner ∧ f.asVariable? = some v ∧
        skips.names owner v.name = true := by
  rw [isSkipped]
  cases f.owner with
  | none => simp
  | some owner => cases f.asVariable? <;> simp

theorem Fragment.kind_of_asVariable? {f : Fragment} {v : Variable} (h : f.asVariable? = some v) :
    f.kind = .member := by
  cases hk : f.kind with
  | member => rfl
  | enumeration =>
    rw [asVariable?, hk] at h
    cases h

theorem Fragment.of_isSkipped {skips : SkipList} {f : Fragment} (h : f.isSkipped skips = true) :
    f.declared?.isSome ∧ f.asEnumeration? = none := by
  obtain ⟨owner, v, ho, hv, -⟩ := isSkipped_eq_true_iff.1 h
  have hk := kind_of_asVariable? hv
  constructor
  · rw [declared?_member hk, ho, hv]
    rfl
  · rw [asEnumeration?, hk]

theorem Fragment.owner?_of_declared? {f : Fragment} {d : Declaration}
    (h : f.declared? = some d) : d.owner?.isSome := by
  rcases f.exists_of_declared? h with ⟨e, -, rfl⟩ | ⟨v, owner, -, -, -, rfl⟩ <;> rfl

section Filtered

variable (skips : SkipList) (fs : List Fragment)

theorem enumerationsOf_filter (file : ClassFile) :
    enumerationsOf file (fs.filter fun f => !f.isSkipped skips) = enumerationsOf file fs := by
  rw [enumerationsOf, enumerationsOf, List.filterMap_filter]
  congr 1
  apply List.filterMap_congr
  intro f _
  by_cases h : f.isSkipped skips = true
  · rw [if_neg (by simp [h]), (Fragment.of_isSkipped h).2]
  · rw [if_pos (by simp [h])]

theorem variablesOf_filter (file : ClassFile) :
    variablesOf file (fs.filter fun f => !f.isSkipped skips) =
      (variablesOf file fs).filter fun v => !skips.names file v.name := by
  induction fs with
  | nil => rfl
  | cons f fs ih =>
    have hcons : ∀ gs, variablesOf file (f :: gs) =
        (if f.owner = some file then (f.asVariable?.map (·.inClass file)).toList else []) ++
          variablesOf file gs := by
      intro gs
      by_cases ho : f.owner = some file <;> cases hv : f.asVariable? <;> simp [variablesOf, ho, hv]
    by_cases ho : f.owner = some file
    · cases hv : f.asVariable? with
      | none =>
        have hs : f.isSkipped skips = false := by rw [Fragment.isSkipped, ho, hv]
        rw [List.filter_cons_of_pos (by simp [hs]), hcons, hcons, ih, if_pos ho, hv]
        rfl
      | some v =>
        have hs : f.isSkipped skips = skips.names file v.name := by rw [Fragment.isSkipped, ho, hv]
        rw [hcons, if_pos ho, hv, List.filter_cons, hs]
        cases hn : skips.names file v.name with
        | true => simp [ih, Variable.inClass, hn]
        | false =>
          rw [Bool.not_false, if_pos rfl, hcons, if_pos ho, hv, ih]
          simp [Variable.inClass, hn]
    · rw [hcons, if_neg ho, List.nil_append, ← ih, List.filter_cons]
      split
      · rw [hcons, if_neg ho, List.nil_append]
      · rfl

theorem length_filterMap_declared? :
    (fs.filterMap Fragment.declared?).length =
      ((fs.filter fun f => !f.isSkipped skips).filterMap Fragment.declared?).length +
        fs.countP (Fragment.isSkipped skips) := by
  induction fs with
  | nil => rfl
  | cons f fs ih =>
    cases hs : f.isSkipped skips with
    | true =>
      obtain ⟨d, hd⟩ := Option.isSome_iff_exists.1 (Fragment.of_isSkipped hs).1
      rw [List.filterMap_cons_some hd, List.filter_cons_of_neg (by simp [hs]),
        List.countP_cons_of_pos hs, List.length_cons, ih, Nat.add_assoc]
    | false =>
      rw [List.filter_cons_of_pos (by simp [hs]), List.countP_cons_of_neg (by simp [hs])]
      cases hd : f.declared? with
      | none => rw [List.filterMap_cons_none hd, List.filterMap_cons_none hd, ih]
      | some d =>
        rw [List.filterMap_cons_some hd, List.filterMap_cons_some hd, List.length_cons,
          List.length_cons, ih, Nat.add_right_comm]

end Filtered

namespace Catalog

theorem size_insertAll {ds : List Declaration} (h : ∀ d ∈ ds, d.owner?.isSome) (c : Catalog) :
    (c.insertAll ds).size = c.size + ds.length := by
  induction ds generalizing c with
  | nil => rfl
  | cons d ds ih =>
    change ((c.insert d).insertAll ds).size = _
    rw [ih fun e he => h e (.tail _ he), size_insert (h d (.head _)), List.length_cons]
    omega

/-- A skip list changes each body by itself, and drops those that it empties. -/
theorem WellFormed.body?_apply {c : Catalog} (hc : c.WellFormed) (skips : SkipList)
    (file : ClassFile) :
    (skips.apply c).body? file = (c.body? file).bind fun b =>
      let left : ClassBody := { b with vars := b.vars.filter fun v => !skips.names file v.name }
      if left.isEmpty then none else some left := by
  have hleft : ∀ b, (file, b) ∈ c.units → skips.applyBody file b =
      { b with vars := b.vars.filter fun v => !skips.names file v.name } := by
    intro b hb
    obtain rfl := hc.keyed file b hb
    have hnamed := (hc.bodies b (mem_bodies_iff.2 ⟨_, hb⟩)).named
    simp only [SkipList.applyBody, skips.skips_eq_names hnamed]
  apply Option.ext
  intro d
  rw [(hc.apply skips).sorted.body?_eq_some_iff, Option.bind_eq_some_iff, SkipList.mem_apply_iff]
  constructor
  · rintro ⟨b, hb, rfl, hne⟩
    refine ⟨b, hc.sorted.body?_of_mem hb, ?_⟩
    rw [← hleft b hb, if_neg (by simpa using hne)]
  · rintro ⟨b, hb, hd⟩
    have hmem := mem_of_body? hb
    rw [← hleft b hmem] at hd
    dsimp only at hd
    split at hd
    · cases hd
    · rename_i hne
      cases hd
      exact ⟨b, hmem, rfl, by simpa using hne⟩

end Catalog

theorem Session.skip_congr (s : Session) {a b : SkipList} (h : a.skips = b.skips) :
    s.skip a = s.skip b := by
  have hbody : a.applyBody = b.applyBody := by
    funext key body
    rw [SkipList.applyBody, SkipList.applyBody, h]
  have hcount : a.countBody = b.countBody := by
    funext key body
    rw [SkipList.countBody, SkipList.countBody, h]
  rw [skip, skip, SkipList.apply, SkipList.apply, SkipList.countSkipped, SkipList.countSkipped,
    hbody, hcount]

theorem Session.skip_filter (s : Session) (skips : SkipList) :
    s.skip ⟨skips.classes, skips.vars.filter (Text.occurs ".")⟩ = s.skip skips := by
  apply s.skip_congr
  funext file name
  rw [SkipList.skips, SkipList.skips, skips.variablePairs_filter]

/-- Leaving out variables after a conversion is the same as leaving out, before it, the fragments
that declare them, of which there are as many. -/
theorem skip_addAll {fs : List Fragment} (hfs : ∀ f ∈ fs, f.OwnerRead) (skips : SkipList) :
    let s := (({} : Session).addAll fs).1
    (s.skip skips).1.catalog =
        (({} : Session).addAll (fs.filter fun f => !f.isSkipped skips)).1.catalog ∧
      (s.skip skips).2 = fs.countP (Fragment.isSkipped skips) ∧
      (∀ file, (s.skip skips).1.catalog.body? file = (s.catalog.body? file).bind fun b =>
        let left := b.vars.filter fun v => !skips.names file v.name
        if b.enumerations = [] ∧ left = [] then none else some ⟨b.file, b.enumerations, left⟩) ∧
      s.skip ⟨skips.classes, skips.vars.filter (Text.occurs ".")⟩ = s.skip skips := by
  intro s
  have hc : s.catalog.WellFormed := (Session.Reachable.start.addAll hfs).wellFormed
  have hkept : ∀ f ∈ fs.filter fun f => !f.isSkipped skips, f.OwnerRead :=
    fun f hf => hfs f (List.mem_filter.1 hf).1
  have hcatalog : (s.skip skips).1.catalog =
      (({} : Session).addAll (fs.filter fun f => !f.isSkipped skips)).1.catalog := by
    apply (hc.apply skips).sorted.ext (Session.Reachable.start.addAll hkept).wellFormed.sorted
    intro file
    rw [hc.body?_apply, body?_addAll hfs, body?_addAll hkept, gather_declared, gather_declared,
      enumerationsOf_filter, variablesOf_filter]
    by_cases h : (ClassBody.mk file (enumerationsOf file fs) (variablesOf file fs)).isEmpty = true
    · obtain ⟨he, hv⟩ : enumerationsOf file fs = [] ∧ variablesOf file fs = [] := by
        simpa [ClassBody.isEmpty] using h
      rw [he, hv]
      rfl
    · simp only [h]
      rfl
  refine ⟨hcatalog, ?_, fun file => ?_, s.skip_filter skips⟩
  · have hsize := Catalog.size_apply skips s.catalog
    have hall := length_filterMap_declared? skips fs
    have hdeclared : ∀ gs : List Fragment, ((({} : Session).addAll gs).1.catalog).size =
        (gs.filterMap Fragment.declared?).length := by
      intro gs
      rw [Session.catalog_addAll, Catalog.size_insertAll, Catalog.size_nil, Nat.zero_add]
      intro d hd
      obtain ⟨f, -, hf⟩ := List.mem_filterMap.1 hd
      exact f.owner?_of_declared? hf
    have happly : (skips.apply s.catalog).size =
        ((fs.filter fun f => !f.isSkipped skips).filterMap Fragment.declared?).length := by
      rw [← hdeclared]
      exact congrArg Catalog.size hcatalog
    have hwhole : s.catalog.size = (fs.filterMap Fragment.declared?).length := hdeclared fs
    change skips.countSkipped s.catalog = _
    omega
  · rw [show (s.skip skips).1.catalog = skips.apply s.catalog from rfl, hc.body?_apply]
    simp only [ClassBody.isEmpty, Bool.and_eq_true, List.isEmpty_iff]

def pawnFragments : List Fragment :=
  [⟨.member, ClassFile.parse? "Engine.Pawn", "int   Health;   // 0x0", 1⟩,
    ⟨.member, ClassFile.parse? "Core.Pawn", "int   Stats.Health;   // 0x0", 2⟩,
    ⟨.enumeration, none, "// Enum Engine.Pawn.EStance\n\x7b\nStanding = 0,\n\x7d", 3⟩,
    ⟨.member, ClassFile.parse? "Core.Pawn", "int   Health;   // 0x0", 4⟩]

def pawnSkips : SkipList :=
  ⟨[], ["Pawn.Health", "Pawn.Stats.Health", "Pawn"]⟩

theorem skip_addAll_pawn :
    (∀ f ∈ pawnFragments, f.OwnerRead) ∧
    ((({} : Session).addAll pawnFragments).1.skip pawnSkips).1.catalog.bodies =
      [⟨⟨"Engine", "Pawn"⟩, [⟨⟨"Engine", "Pawn", "EStance"⟩, ["Standing"]⟩], []⟩] ∧
    ((({} : Session).addAll pawnFragments).1.skip pawnSkips).2 = 3 := by
  have hread : ∀ f ∈ pawnFragments, f.OwnerRead := by
    intro f hf owner ho
    simp only [pawnFragments, List.mem_cons, List.not_mem_nil, or_false] at hf
    rcases hf with rfl | rfl | rfl | rfl
    · exact ⟨"Engine.Pawn", ho⟩
    · exact ⟨"Core.Pawn", ho⟩
    · cases ho
    · exact ⟨"Core.Pawn", ho⟩
  obtain ⟨hcatalog, hcount, -, -⟩ := skip_addAll hread pawnSkips
  refine ⟨hread, ?_, ?_⟩
  · rw [hcatalog]
    decide +kernel
  · rw [hcount]
    decide +kernel

end UnrealDecl
