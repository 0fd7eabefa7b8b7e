import UnrealDecl.Proofs.Declaration.Rendering

namespace UnrealDecl

def Modifier.ofKeyword? (keyword : Text) : Option Modifier :=
  all.find? fun m => m.keyword = some keyword

theorem Modifier.bind_ofKeyword? (m : Modifier) :
    m.keyword.bind ofKeyword? = if m ≠ edit ∧ m ≠ localized then some m else none := by
  cases m <;> decide

theorem Modifiers.filterMap_keywords (s : Modifiers) :
    s.keywords.filterMap Modifier.ofKeyword? =
      s.toList.filter fun m => m ≠ .edit ∧ m ≠ .localized := by
  rw [keywords, List.filterMap_filterMap, ← List.filterMap_eq_filter]
  apply List.filterMap_congr
  intro m _
  rw [m.bind_ofKeyword?, Option.guard]
  simp only [decide_eq_true_eq]

namespace Variable

variable {line other : Text} {v u : Variable}

theorem render_eq_join (v : Variable) : v.render = Text.join " " v.parts ++ ";\n" := by
  rw [v.render_eq_row, v.row_eq_join, List.append_assoc]
  rfl

/-- Declarations that are written alike have the same words, if their names are single words. -/
theorem parts_eq_of_render (hv : (parse line).result = .ok v) (hu : (parse other).result = .ok u)
    (hvname : ' ' ∉ v.name) (huname : ' ' ∉ u.name) (h : v.render = u.render) :
    v.parts = u.parts := by
  rw [render_eq_join, render_eq_join] at h
  have hsplit : ∀ {line : Text} {v : Variable}, (parse line).result = .ok v → ' ' ∉ v.name →
      Text.splitWhere (· == ' ') (Text.join " " v.parts) = v.parts := by
    intro line v hv hname
    exact Text.splitWhere_join (List.cons_ne_nil _ _) (stop_not_mem_parts hv (by decide) hname)
  have hjoin := congrArg (Text.splitWhere (· == ' ')) (List.append_cancel_right h)
  rwa [hsplit hv hvname, hsplit hu huname] at hjoin

theorem eq_of_parts (h : v.parts = u.parts) :
    v.name = u.name ∧ v.typeName = u.typeName ∧
      v.modifiers.contains .edit = u.modifiers.contains .edit ∧
      v.modifiers.keywords = u.modifiers.keywords := by
  obtain ⟨hlead, hrest⟩ := List.cons.inj h
  obtain ⟨hkeywords, hpair⟩ := List.append_inj' hrest rfl
  obtain ⟨htype, hname⟩ := List.cons.inj hpair
  refine ⟨(List.cons.inj hname).1, htype, ?_, hkeywords⟩
  cases hv : v.modifiers.contains .edit <;> cases hu : u.modifiers.contains .edit
  · rfl
  · rw [hv, hu] at hlead
    exact absurd hlead (by decide)
  · rw [hv, hu] at hlead
    exact absurd hlead (by decide)
  · rfl

/-- A variable that is read is written as one line, which ends at its only semicolon. Where names
are single words, the line tells all but `localized` and the place of `edit`. -/
theorem render_unambiguous (hline : '\n' ∉ line) (h : (parse line).result = .ok v) :
    (∃ w : Text, (v.typeName = w ∨ v.typeName = "array<" ++ w ++ ">") ∧
        ∀ c ∈ w, isBlank c = false ∧ c ∉ ("1;:<>*" : Text)) ∧
      (∃ body : Text, v.render = body ++ ";\n" ∧ ';' ∉ body ∧ '\n' ∉ body) ∧
      ∀ (other : Text) (u : Variable), (parse other).result = .ok u →
        ' ' ∉ v.name → ' ' ∉ u.name → v.render = u.render →
        v.name = u.name ∧ v.typeName = u.typeName ∧
          v.modifiers.contains .edit = u.modifiers.contains .edit ∧
          (v.modifiers.toList.filter fun m => m ≠ .edit ∧ m ≠ .localized) =
            u.modifiers.toList.filter fun m => m ≠ .edit ∧ m ≠ .localized := by
  have hsign : ';' ∉ Text.join " " v.parts :=
    stop_not_mem_join h (by decide) (by decide) (Member.not_mem_clean (by decide) line)
  refine ⟨exists_core h, ⟨_, v.render_eq_join, hsign, feed_not_mem_join hline h⟩, ?_⟩
  intro other u hu hvname huname hrender
  obtain ⟨hname, htype, hedit, hkeywords⟩ :=
    eq_of_parts (parts_eq_of_render h hu hvname huname hrender)
  refine ⟨hname, htype, hedit, ?_⟩
  rw [← Modifiers.filterMap_keywords, ← Modifiers.filterMap_keywords, hkeywords]

def localizedOwners : Text :=
  "\tTArray< class UObject* >   Owners;   // 0x40 (0xC) (CPF_Localized | CPF_Const | CPF_Edit)"

def owners : Text :=
  "\tTArray< UObject >   Owners;   // 0x40 (0xC) (CPF_Edit | CPF_Const)"

theorem render_unambiguous_owners :
    ∃ v u : Variable, '\n' ∉ localizedOwners ∧ (parse localizedOwners).result = .ok v ∧
      (parse owners).result = .ok u ∧ ' ' ∉ v.name ∧ ' ' ∉ u.name ∧ v.render = u.render ∧
      v.modifiers ≠ u.modifiers ∧ v.typeName = u.typeName ∧
      (v.modifiers.toList.filter fun m => m ≠ .edit ∧ m ≠ .localized) =
        u.modifiers.toList.filter fun m => m ≠ .edit ∧ m ≠ .localized := by
  have hline : '\n' ∉ localizedOwners := by decide
  have hlocalized : (parse localizedOwners).result =
      .ok ⟨none, "Owners", "array<Object>", ⟨[.localized, .const, .edit], by decide⟩⟩ := by
    decide +kernel
  have howners : (parse owners).result =
      .ok ⟨none, "Owners", "array<Object>", ⟨[.edit, .const], by decide⟩⟩ := by
    decide +kernel
  obtain ⟨-, -, htells⟩ := render_unambiguous hline hlocalized
  obtain ⟨-, htype, -, hmodifiers⟩ := htells owners _ howners (by decide) (by decide) rfl
  exact ⟨_, _, hline, hlocalized, howners, by decide, by decide, rfl, by decide, htype, hmodifiers⟩

end Variable

end UnrealDecl
