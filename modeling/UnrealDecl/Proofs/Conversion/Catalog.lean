import Mathlib.Data.Char
import Mathlib.Data.List.Lex
import Mathlib.Data.Prod.Lex
import UnrealDecl.Conversion.Catalog

namespace UnrealDecl

theorem Text.before_iff_lt {s t : Text} : before s t = true ↔ s < t := by
  induction s generalizing t with
  | nil => cases t <;> simp [before]
  | cons a s ih =>
    cases t with
    | nil => simp [before]
    | cons b t =>
      rw [before, Bool.or_eq_true, Bool.and_eq_true, decide_eq_true_eq, beq_iff_eq, ih,
        List.cons_lt_cons_iff]
      rfl

namespace ClassFile

/-- The order of class files is that of package and name, the package first. -/
def key (file : ClassFile) : Text ×ₗ Text :=
  toLex (file.package, file.name)

theorem key_inj {a b : ClassFile} : a.key = b.key ↔ a = b := by
  constructor
  · intro h
    cases a
    cases b
    simpa [key] using h
  · rintro rfl
    rfl

theorem before_iff_lt {a b : ClassFile} : a.before b = true ↔ a.key < b.key := by
  rw [before, Bool.or_eq_true, Bool.and_eq_true, beq_iff_eq, Text.before_iff_lt,
    Text.before_iff_lt, key, key, Prod.Lex.toLex_lt_toLex]

theorem before_trans {a b c : ClassFile} (hab : a.before b = true) (hbc : b.before c = true) :
    a.before c = true :=
  before_iff_lt.2 (lt_trans (before_iff_lt.1 hab) (before_iff_lt.1 hbc))

theorem ne_of_before {a b : ClassFile} (h : a.before b = true) : a ≠ b := by
  rintro rfl
  exact lt_irrefl _ (before_iff_lt.1 h)

theorem before_of_not_before {a b : ClassFile} (hne : a ≠ b) (h : ¬ a.before b = true) :
    b.before a = true := by
  rw [before_iff_lt] at h ⊢
  exact lt_of_le_of_ne (not_lt.1 h) fun he => hne (key_inj.1 he).symm

theorem eq_of_pairwise {α : Type} (file : α → ClassFile) {l l' : List α}
    (h : l.Pairwise fun a b => (file a).before (file b) = true)
    (h' : l'.Pairwise fun a b => (file a).before (file b) = true)
    (hm : ∀ a, a ∈ l ↔ a ∈ l') : l = l' := by
  have hnodup : ∀ {l : List α}, (l.Pairwise fun a b => (file a).before (file b) = true) →
      l.Nodup :=
    fun h => h.imp fun hab he => ne_of_before hab (congrArg file he)
  have hperm : l.Perm l' := (List.perm_ext_iff_of_nodup (hnodup h) (hnodup h')).2 hm
  refine hperm.eq_of_pairwise ?_ h h'
  intro a b _ _ hab hba
  exact absurd rfl (ne_of_before (before_trans hab hba))

end ClassFile

namespace Catalog

/-- The keys are in their order, so that each of them stands once. -/
def Sorted (c : Catalog) : Prop :=
  c.units.Pairwise fun a b => a.1.before b.1 = true

/-- Each body is kept under its own class file. -/
def Keyed (c : Catalog) : Prop :=
  ∀ key b, (key, b) ∈ c.units → b.file = key

@[simp] theorem sorted_empty : Sorted {} :=
  .nil

theorem keyed_empty : Keyed {} :=
  nofun

variable {c d : Catalog} {key other : ClassFile} {b : ClassBody}

theorem body?_cons (other : ClassFile) (b : ClassBody) (units : List (ClassFile × ClassBody))
    (key : ClassFile) :
    (Catalog.mk ((other, b) :: units)).body? key =
      if other = key then some b else (Catalog.mk units).body? key := by
  rw [body?, List.lookup_cons, body?]
  by_cases h : other = key
  · subst h
    rw [beq_self_eq_true, if_pos rfl]
  · rw [beq_eq_false_iff_ne.2 (Ne.symm h), if_neg h]

theorem mem_of_body? (h : c.body? key = some b) : (key, b) ∈ c.units := by
  obtain ⟨before, after, hunits, -⟩ := List.lookup_eq_some_iff.1 h
  rw [hunits]
  exact List.mem_append_right _ (.head _)

theorem Sorted.body?_of_mem (hs : c.Sorted) (h : (key, b) ∈ c.units) : c.body? key = some b := by
  obtain ⟨units⟩ := c
  induction units with
  | nil => cases h
  | cons unit units ih =>
    obtain ⟨hbefore, hs⟩ := List.pairwise_cons.1 hs
    rw [body?_cons]
    rcases List.mem_cons.1 h with rfl | h
    · exact if_pos rfl
    · rw [if_neg (ClassFile.ne_of_before (hbefore _ h))]
      exact ih hs h

theorem Sorted.body?_eq_some_iff (hs : c.Sorted) :
    c.body? key = some b ↔ (key, b) ∈ c.units :=
  ⟨mem_of_body?, hs.body?_of_mem⟩

/-- A catalog in order is known by what it holds under each key. -/
theorem Sorted.ext (hc : c.Sorted) (hd : d.Sorted) (h : ∀ key, c.body? key = d.body? key) :
    c = d := by
  have hmem : ∀ unit, unit ∈ c.units ↔ unit ∈ d.units := by
    rintro ⟨key, b⟩
    rw [← hc.body?_eq_some_iff, ← hd.body?_eq_some_iff, h]
  obtain ⟨units⟩ := c
  obtain ⟨units'⟩ := d
  exact congrArg Catalog.mk (ClassFile.eq_of_pairwise Prod.fst hc hd hmem)

theorem mem_bodies_iff : b ∈ c.bodies ↔ ∃ key, (key, b) ∈ c.units := by
  simp [bodies]

theorem Keyed.mem_bodies_iff (hk : c.Keyed) : b ∈ c.bodies ↔ (b.file, b) ∈ c.units := by
  rw [Catalog.mem_bodies_iff]
  constructor
  · rintro ⟨key, hm⟩
    rwa [hk key b hm]
  · exact fun hm => ⟨b.file, hm⟩

theorem Keyed.pairwise_bodies (hk : c.Keyed) (hs : c.Sorted) :
    c.bodies.Pairwise fun a b => a.file.before b.file = true := by
  refine List.pairwise_map.2 (hs.imp_of_mem fun {u v} hu hv h => ?_)
  rw [hk u.1 u.2 hu, hk v.1 v.2 hv]
  exact h

section Modify

variable {f : ClassBody → ClassBody} {units : List (ClassFile × ClassBody)}

theorem mem_modifyUnits (h : (other, b) ∈ modifyUnits key f units) :
    (other, b) ∈ units ∨
      other = key ∧ (b = f ⟨key, [], []⟩ ∨ ∃ old, (key, old) ∈ units ∧ b = f old) := by
  induction units with
  | nil =>
    cases List.mem_singleton.1 h
    exact .inr ⟨rfl, .inl rfl⟩
  | cons unit units ih =>
    obtain ⟨first, old⟩ := unit
    rw [modifyUnits] at h
    split at h
    · rename_i heq
      subst heq
      rcases List.mem_cons.1 h with h | h
      · cases h
        exact .inr ⟨rfl, .inr ⟨old, .head _, rfl⟩⟩
      · exact .inl (.tail _ h)
    · split at h
      · rcases List.mem_cons.1 h with h | h
        · cases h
          exact .inr ⟨rfl, .inl rfl⟩
        · exact .inl h
      · rcases List.mem_cons.1 h with h | h
        · exact .inl (h ▸ .head _)
        · rcases ih h with h | ⟨he, h | ⟨old, ho, h⟩⟩
          · exact .inl (.tail _ h)
          · exact .inr ⟨he, .inl h⟩
          · exact .inr ⟨he, .inr ⟨old, .tail _ ho, h⟩⟩

theorem Keyed.modify (hk : c.Keyed) (hf : ∀ b, (f b).file = b.file) : (c.modify key f).Keyed := by
  intro other b hm
  rcases mem_modifyUnits hm with hm | ⟨rfl, rfl | ⟨old, ho, rfl⟩⟩
  · exact hk other b hm
  · exact hf _
  · exact (hf old).trans (hk other old ho)

theorem Sorted.modify (hs : c.Sorted) : (c.modify key f).Sorted := by
  obtain ⟨units⟩ := c
  change (modifyUnits key f units).Pairwise _
  induction units with
  | nil => exact List.pairwise_singleton _ _
  | cons unit units ih =>
    obtain ⟨first, b⟩ := unit
    obtain ⟨hfirst, hs'⟩ := List.pairwise_cons.1 hs
    rw [modifyUnits]
    split
    · exact List.pairwise_cons.2 ⟨hfirst, hs'⟩
    · rename_i hne
      split
      · rename_i hlt
        refine List.pairwise_cons.2 ⟨fun unit hm => ?_, hs⟩
        rcases List.mem_cons.1 hm with rfl | hm
        · exact hlt
        · exact ClassFile.before_trans hlt (hfirst unit hm)
      · rename_i hge
        refine List.pairwise_cons.2 ⟨fun unit hm => ?_, ih hs'⟩
        rcases mem_modifyUnits hm with hm | ⟨he, -⟩
        · exact hfirst unit hm
        · rw [he]
          exact ClassFile.before_of_not_before (Ne.symm hne) hge

/-- The body under a key, empty if there is none. -/
def bodyOf (c : Catalog) (key : ClassFile) : ClassBody :=
  (c.body? key).getD ⟨key, [], []⟩

theorem body?_eq_none_of_before (h : ∀ unit ∈ c.units, key.before unit.1 = true) :
    c.body? key = none := by
  cases hb : c.body? key with
  | none => rfl
  | some b => exact absurd rfl (ClassFile.ne_of_before (h _ (mem_of_body? hb)))

theorem Sorted.body?_modify (hs : c.Sorted) (other : ClassFile) :
    (c.modify key f).body? other =
      if other = key then some (f (c.bodyOf key)) else c.body? other := by
  obtain ⟨units⟩ := c
  change (Catalog.mk (modifyUnits key f units)).body? other = _
  induction units with
  | nil =>
    rw [modifyUnits, body?_cons]
    by_cases h : other = key
    · rw [if_pos h.symm, if_pos h]
      rfl
    · rw [if_neg (Ne.symm h), if_neg h]
  | cons unit units ih =>
    obtain ⟨first, b⟩ := unit
    obtain ⟨hfirst, hs'⟩ := List.pairwise_cons.1 hs
    rw [modifyUnits, bodyOf, body?_cons, body?_cons]
    by_cases hkey : first = key
    · subst hkey
      rw [if_pos rfl, if_pos rfl, body?_cons]
      by_cases h : other = first
      · rw [if_pos h.symm, if_pos h]
        rfl
      · rw [if_neg (Ne.symm h), if_neg h, if_neg (Ne.symm h)]
    · rw [if_neg hkey, if_neg hkey]
      by_cases hlt : key.before first = true
      · have hnone : (Catalog.mk units).body? key = none :=
          body?_eq_none_of_before fun unit hm => ClassFile.before_trans hlt (hfirst unit hm)
        rw [if_pos hlt, hnone, body?_cons, body?_cons]
        by_cases h : other = key
        · rw [if_pos h.symm, if_pos h]
          rfl
        · rw [if_neg (Ne.symm h), if_neg h]
      · rw [if_neg hlt, body?_cons, ih hs']
        by_cases h : first = other
        · rw [if_pos h, if_pos h, if_neg (h ▸ hkey)]
        · rw [if_neg h, if_neg h]
          rfl

end Modify

end Catalog

end UnrealDecl
