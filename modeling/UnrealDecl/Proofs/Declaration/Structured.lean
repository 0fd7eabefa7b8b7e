import Mathlib.Data.List.Basic
import UnrealDecl.Declaration.Structured
import UnrealDecl.Proofs.Json.Compact

namespace UnrealDecl

open Json (field)

theorem Json.map_text_inj {texts others : List Text}
    (h : texts.map Json.text = others.map Json.text) : texts = others :=
  List.map_injective_iff.2 (fun _ _ => Json.text.inj) h

theorem Modifiers.toJson_inj {s t : Modifiers} (h : s.toJson = t.toJson) : s = t := by
  have hname : Function.Injective fun m : Modifier => Json.text m.name :=
    fun _ _ he => Modifier.name_inj.1 (Json.text.inj he)
  exact Modifiers.ext (List.map_injective_iff.2 hname (Json.array.inj h))

theorem ClassFile.fields_inj {file other : ClassFile} (h : file.fields = other.fields) :
    file = other := by
  obtain ⟨package, name⟩ := file
  obtain ⟨package', name'⟩ := other
  simp only [fields, field, List.cons.injEq, Prod.mk.injEq, Json.text.injEq, true_and,
    and_true] at h
  obtain ⟨rfl, rfl⟩ := h
  rfl

theorem Qualifier.fields_inj {q other : Qualifier} (h : q.fields = other.fields) : q = other := by
  obtain ⟨package, classFile, name⟩ := q
  obtain ⟨package', classFile', name'⟩ := other
  simp only [fields, field, List.cons.injEq, Prod.mk.injEq, Json.text.injEq, true_and,
    and_true] at h
  obtain ⟨rfl, rfl, rfl⟩ := h
  rfl

theorem ClassFile.owner_inj {owner other : Option ClassFile}
    (h : (owner.map ClassFile.fields).getD [] = (other.map ClassFile.fields).getD []) :
    owner = other := by
  cases owner with
  | none =>
    cases other with
    | none => rfl
    | some other => cases h
  | some owner =>
    cases other with
    | none => cases h
    | some other => exact congrArg some (ClassFile.fields_inj h)

theorem Variable.fields_inj {v w : Variable} (h : v.fields = w.fields) : v = w := by
  obtain ⟨owner, name, typeName, modifiers⟩ := v
  obtain ⟨owner', name', typeName', modifiers'⟩ := w
  obtain ⟨howner, hrest⟩ := List.append_inj' h rfl
  simp only [field, List.cons.injEq, Prod.mk.injEq, Json.text.injEq, true_and, and_true] at hrest
  obtain ⟨rfl, rfl, hmodifiers⟩ := hrest
  obtain rfl : owner = owner' := ClassFile.owner_inj howner
  obtain rfl : modifiers = modifiers' := Modifiers.toJson_inj hmodifiers
  rfl

theorem Enumeration.fields_inj {e d : Enumeration} (h : e.fields = d.fields) : e = d := by
  obtain ⟨qualifier, members⟩ := e
  obtain ⟨qualifier', members'⟩ := d
  obtain ⟨hqualifier, hmembers⟩ := List.append_inj' h rfl
  simp only [field, List.cons.injEq, Prod.mk.injEq, Json.array.injEq, true_and,
    and_true] at hmembers
  obtain rfl : qualifier = qualifier' := Qualifier.fields_inj hqualifier
  obtain rfl : members = members' := Json.map_text_inj hmembers
  rfl

namespace Declaration

theorem toJson_inj {d e : Declaration} (h : d.toJson = e.toJson) : d = e := by
  cases d with
  | member v =>
    cases e with
    | member w => exact congrArg member (Variable.fields_inj (List.cons.inj (Json.object.inj h)).2)
    | enumeration e =>
      have hkind := congrArg Prod.snd (List.cons.inj (Json.object.inj h)).1
      exact absurd (Json.text.inj hkind) (by decide)
  | enumeration d =>
    cases e with
    | member w =>
      have hkind := congrArg Prod.snd (List.cons.inj (Json.object.inj h)).1
      exact absurd (Json.text.inj hkind) (by decide)
    | enumeration e =>
      exact congrArg enumeration (Enumeration.fields_inj (List.cons.inj (Json.object.inj h)).2)

/-- The compact text of a declaration tells all of it: whether it is a member or an enumeration,
its class file or that it has none, its name, its type and its modifiers, or its members. -/
theorem compact_toJson_inj (d e : Declaration) :
    d.toJson.compact = e.toJson.compact ↔ d = e := by
  constructor
  · intro h
    exact toJson_inj (Json.compact_inj.1 h)
  · rintro rfl
    rfl

example : (member ⟨none, "a\"b", "int", .empty⟩).toJson.compact =
    "\x7b\"kind\":\"variable\",\"name\":\"a\\\"b\",\"type\":\"int\",\"modifiers\":[]\x7d" := by
  decide

end Declaration

end UnrealDecl
