import UnrealDecl.Proofs.Conversion.Skipping

namespace UnrealDecl

namespace SkipList

instance : Append SkipList :=
  ⟨fun a b => ⟨a.classes ++ b.classes, a.vars ++ b.vars⟩⟩

@[simp] theorem classes_append (a b : SkipList) : (a ++ b).classes = a.classes ++ b.classes := rfl

@[simp] theorem vars_append (a b : SkipList) : (a ++ b).vars = a.vars ++ b.vars := rfl

/-- What is left under a key, if anything is. -/
def left? (s : SkipList) (unit : ClassFile × ClassBody) : Option (ClassFile × ClassBody) :=
  if (s.applyBody unit.1 unit.2).isEmpty then none else some (unit.1, s.applyBody unit.1 unit.2)

theorem units_apply (s : SkipList) (c : Catalog) :
    (s.apply c).units = c.units.filterMap s.left? := by
  rw [apply, ← List.filterMap_eq_filter, List.filterMap_map]
  apply List.filterMap_congr
  intro unit _
  cases h : (s.applyBody unit.1 unit.2).isEmpty <;> simp [left?, h]

section Append

variable (a b : SkipList)

theorem skips_append (file : ClassFile) (name : Text) :
    (a ++ b).skips file name = (a.skips file name || b.skips file name) := by
  have hpairs : (a ++ b).variablePairs = a.variablePairs ++ b.variablePairs :=
    List.filterMap_append
  simp only [skips, hpairs, classes_append, List.mem_append, Bool.decide_or]
  ac_rfl

theorem applyBody_append (key : ClassFile) (body : ClassBody) :
    (a ++ b).applyBody key body = b.applyBody key (a.applyBody key body) := by
  simp only [applyBody, List.filter_filter, skips_append, Bool.not_or, Bool.and_comm]

theorem bind_left? (unit : ClassFile × ClassBody) :
    (a.left? unit).bind b.left? = (a ++ b).left? unit := by
  obtain ⟨key, body⟩ := unit
  rw [left?, left?, applyBody_append]
  dsimp only
  cases hempty : (a.applyBody key body).isEmpty with
  | false => rfl
  | true =>
    simp only [ClassBody.isEmpty, Bool.and_eq_true, List.isEmpty_iff] at hempty
    have hboth : (b.applyBody key (a.applyBody key body)).isEmpty = true := by
      rw [applyBody, hempty.2]
      simp only [ClassBody.isEmpty, hempty.1]
      rfl
    rw [hboth]
    rfl

theorem apply_append (c : Catalog) : (a ++ b).apply c = b.apply (a.apply c) := by
  apply congrArg Catalog.mk
  change ((a ++ b).apply c).units = (b.apply (a.apply c)).units
  rw [units_apply, units_apply, units_apply, List.filterMap_filterMap]
  exact List.filterMap_congr fun unit _ => (bind_left? a b unit).symm

theorem countSkipped_append (c : Catalog) :
    (a ++ b).countSkipped c = a.countSkipped c + b.countSkipped (a.apply c) := by
  have hboth := Catalog.size_apply (a ++ b) c
  have hfirst := Catalog.size_apply a c
  have hsecond := Catalog.size_apply b (a.apply c)
  rw [apply_append] at hboth
  omega

end Append

/-- Neither the order of the entries counts nor how often each of them stands in the list. -/
theorem skips_congr {a b : SkipList} (hc : ∀ name, name ∈ a.classes ↔ name ∈ b.classes)
    (hv : ∀ entry, entry ∈ a.vars ↔ entry ∈ b.vars) : a.skips = b.skips := by
  funext file name
  simp only [skips, variablePairs, List.mem_filterMap, hc, hv]

theorem apply_empty {c : Catalog} (h : ∀ body ∈ c.bodies, body.isEmpty = false) :
    apply {} c = c := by
  apply congrArg Catalog.mk
  change (apply {} c).units = c.units
  have hbody : ∀ key body, applyBody {} key body = body := by
    intro key body
    simp [applyBody, skips, variablePairs]
  rw [units_apply]
  calc c.units.filterMap (left? {})
      = c.units.filterMap some := by
        apply List.filterMap_congr
        intro unit hm
        have hne := h unit.2 (List.mem_map_of_mem hm)
        rw [left?, hbody, if_neg (by simp [hne])]
    _ = c.units := List.filterMap_some

end SkipList

theorem Catalog.nonempty_insertAll {c : Catalog} (hc : ∀ body ∈ c.bodies, body.isEmpty = false)
    (ds : List Declaration) : ∀ body ∈ (c.insertAll ds).bodies, body.isEmpty = false := by
  induction ds generalizing c with
  | nil => exact hc
  | cons d ds ih => exact ih (nonempty_insert hc d)

namespace Session

theorem nonempty_addAll (fs : List Fragment) :
    ∀ body ∈ (({} : Session).addAll fs).1.catalog.bodies, body.isEmpty = false := by
  rw [catalog_addAll]
  exact Catalog.nonempty_insertAll (fun body hm => absurd hm List.not_mem_nil) _

theorem skip_append (s : Session) (a b : SkipList) :
    s.skip (a ++ b) = (((s.skip a).1.skip b).1, (s.skip a).2 + ((s.skip a).1.skip b).2) := by
  rw [skip, SkipList.apply_append, SkipList.countSkipped_append]
  rfl

theorem skip_empty {s : Session} (h : ∀ body ∈ s.catalog.bodies, body.isEmpty = false) :
    s.skip {} = (s, 0) := by
  have hsize := Catalog.size_apply {} s.catalog
  rw [SkipList.apply_empty h, Nat.add_eq_left] at hsize
  rw [skip, SkipList.apply_empty h, hsize]

end Session

/-- Two skip lists leave out, one after the other and in either order, what they leave out as one
list. So a list leaves out nothing the second time, and its entries may be reordered or repeated. -/
theorem skip_compose (s : Session) (a b : SkipList) :
    ((s.skip a).1.skip b).1 = (s.skip (a ++ b)).1 ∧
      ((s.skip b).1.skip a).1 = (s.skip (a ++ b)).1 ∧
      (s.skip a).2 + ((s.skip a).1.skip b).2 = (s.skip (a ++ b)).2 ∧
      (s.skip b).2 + ((s.skip b).1.skip a).2 = (s.skip (a ++ b)).2 ∧
      (s.skip a).1.skip a = ((s.skip a).1, 0) ∧
      (∀ a' : SkipList, (∀ name, name ∈ a'.classes ↔ name ∈ a.classes) →
        (∀ entry, entry ∈ a'.vars ↔ entry ∈ a.vars) → s.skip a' = s.skip a) ∧
      (s.skip a).1.fragments = s.fragments ∧ (s.skip a).1.tokens = s.tokens ∧
      ∀ fs, (({} : Session).addAll fs).1.skip {} = ((({} : Session).addAll fs).1, 0) := by
  have hcongr : ∀ {a a' : SkipList}, (∀ name, name ∈ a'.classes ↔ name ∈ a.classes) →
      (∀ entry, entry ∈ a'.vars ↔ entry ∈ a.vars) → s.skip a' = s.skip a :=
    fun hc hv => s.skip_congr (SkipList.skips_congr hc hv)
  have happend := s.skip_append a b
  have hcomm : s.skip (a ++ b) =
      (((s.skip b).1.skip a).1, (s.skip b).2 + ((s.skip b).1.skip a).2) := by
    rw [← s.skip_append b a]
    apply hcongr <;> simp [or_comm]
  have htwice : s.skip a =
      (((s.skip a).1.skip a).1, (s.skip a).2 + ((s.skip a).1.skip a).2) := by
    rw [← s.skip_append a a]
    apply hcongr <;> simp
  have hstate : ((s.skip a).1.skip a).1 = (s.skip a).1 := (congrArg Prod.fst htwice).symm
  have hcount : (s.skip a).2 = (s.skip a).2 + ((s.skip a).1.skip a).2 := congrArg Prod.snd htwice
  refine ⟨by rw [happend], by rw [hcomm], by rw [happend], by rw [hcomm], ?_, fun _ => hcongr, rfl,
    rfl, fun fs => Session.skip_empty (Session.nonempty_addAll fs)⟩
  exact Prod.ext hstate (by omega)

def pawnHealth : SkipList :=
  ⟨[], ["Pawn.Health", "Pawn"]⟩

theorem skip_compose_pawn :
    let s := (({} : Session).addAll pawnFragments).1
    (s.skip pawnHealth).2 = 2 ∧ ((s.skip pawnHealth).1.skip ⟨["Pawn"], []⟩).2 = 1 ∧
      (s.skip (pawnHealth ++ ⟨["Pawn"], []⟩)).2 = 3 ∧
      s.skip ⟨[], ["Pawn", "Pawn.Health", "Pawn"]⟩ = s.skip pawnHealth ∧ s.skip {} = (s, 0) := by
  intro s
  have hfirst : (s.skip pawnHealth).2 = 2 := by decide +kernel
  have hsecond : ((s.skip pawnHealth).1.skip ⟨["Pawn"], []⟩).2 = 1 := by decide +kernel
  obtain ⟨-, -, hcount, -, -, hcongr, -, -, hempty⟩ := skip_compose s pawnHealth ⟨["Pawn"], []⟩
  rw [hfirst, hsecond] at hcount
  refine ⟨hfirst, hsecond, hcount.symm, ?_, hempty pawnFragments⟩
  apply hcongr
  · exact fun _ => Iff.rfl
  · intro entry
    simp only [pawnHealth, List.mem_cons, List.not_mem_nil, or_false]
    tauto

end UnrealDecl
