import UnrealDecl.Declaration.Basic
import UnrealDecl.Proofs.Member.Clean
import UnrealDecl.Proofs.Member.Reading
import UnrealDecl.Proofs.Names

namespace UnrealDecl

namespace Variable

variable {line : Text} {v : Variable}

theorem name_of_parse (h : (parse line).result = .ok v) :
    v.name ≠ [] ∧ Text.IsTrimmed v.name := by
  obtain ⟨-, hname⟩ := head_eq_ok_iff.1 (head_of_parse h)
  obtain ⟨column, -, htrim, hne⟩ := Member.name?_eq_some_iff.1 hname
  exact ⟨hne, htrim ▸ Text.isTrimmed_trim column⟩

theorem mapped_ne_array {word : Text} (h : '<' ∉ word) : TypeName.mapped word ≠ "array<>" := by
  intro he
  have hmem : '<' ∈ TypeName.mapped word := he ▸ by decide
  have hplain : ∀ entry ∈ TypeName.exact, '<' ∉ entry.2 := by decide
  rcases TypeName.mem_of_mem_mapped hmem with hm | ⟨entry, hentry, hm⟩
  · exact h hm
  · exact hplain entry hentry hm

/-- The type of a variable, or of its elements, is missing exactly where it is spelled by one
upper-case letter, which is taken for the letter in front of a class name. -/
theorem typeName_missing_iff (h : (parse line).result = .ok v) :
    v.typeName = [] ∨ v.typeName = "array<>" ↔
      ∃ c, isUpper c = true ∧
        TypeName.subject? (Text.words (Member.clean line)) = some [c] := by
  obtain ⟨htype, -⟩ := head_eq_ok_iff.1 (head_of_parse h)
  obtain ⟨word, hsubject, hne, hname⟩ := TypeName.exists_subject htype
  have hspelled : TypeName.mapped word = [] ↔
      ∃ c, isUpper c = true ∧
        TypeName.subject? (Text.words (Member.clean line)) = some [c] := by
    rw [TypeName.mapped_eq_nil_iff hne, hsubject]
    simp only [Option.some.injEq]
  rw [hname, ← hspelled]
  split
  · constructor
    · rintro (he | he)
      · simp at he
      · rw [List.append_assoc] at he
        have hsplit : ("array<>" : Text) = "array<" ++ ">" := by decide
        rw [hsplit] at he
        have hrest := List.append_cancel_left he
        simpa using hrest
    · intro he
      exact .inr (by rw [he]; rfl)
  · have hpart := (Text.mem_tokens (TypeName.mem_of_subject? hsubject)).2.2
    have hplain : '<' ∉ word := fun hm =>
      Member.not_mem_clean (by decide) line (hpart.subset hm)
    exact ⟨fun he => he.resolve_right (mapped_ne_array hplain), .inl⟩

end Variable

namespace Declaration

theorem parse_cases {fragment : Text} {d : Declaration} (h : (parse fragment).result = .ok d) :
    (∃ e, d = .enumeration e ∧ Enumeration.parse fragment = .ok e) ∨
      ∃ v, d = .member v ∧ (Variable.parse fragment).result = .ok v := by
  rw [parse] at h
  split at h
  · cases he : Enumeration.parse fragment with
    | error cause =>
      rw [he] at h
      cases h
    | ok e =>
      rw [he] at h
      cases h
      exact .inl ⟨e, rfl, rfl⟩
  · rw [Reading.map] at h
    cases hv : (Variable.parse fragment).result with
    | error cause =>
      rw [hv] at h
      cases h
    | ok v =>
      rw [hv] at h
      cases h
      exact .inr ⟨v, rfl, rfl⟩

/-- A declaration that is read has a name, without white space at its ends, and a variable has a
type, unless that is spelled by one upper-case letter. -/
theorem identity_of_parse {fragment : Text} {d : Declaration}
    (h : (parse fragment).result = .ok d) :
    d.name ≠ [] ∧ Text.IsTrimmed d.name ∧
      (∀ e, d = .enumeration e → e.qualifier.package ≠ [] ∧ e.qualifier.classFile ≠ []) ∧
      ∀ v, d = .member v →
        (v.typeName = [] ∨ v.typeName = "array<>" ↔
          ∃ c, isUpper c = true ∧
            TypeName.subject? (Text.words (Member.clean fragment)) = some [c]) := by
  rcases parse_cases h with ⟨e, rfl, he⟩ | ⟨v, rfl, hv⟩
  · obtain ⟨dotted, hsolid, hq⟩ := Enumeration.exists_dotted he
    obtain ⟨hdotted, hpackage, hfile, hname⟩ := Qualifier.parse?_eq_some_iff.1 hq
    have hword : ∀ c ∈ e.name, isBlank c = false := by
      intro c hc
      apply hsolid
      rw [hdotted, Qualifier.display]
      exact List.mem_append_right _ (.tail _ (List.mem_append_right _ (.tail _ hc)))
    refine ⟨hname.1, .of_solid hword, ?_, ?_⟩
    · intro other hother
      cases hother
      exact ⟨hpackage.1, hfile.1⟩
    · intro v hv
      cases hv
  · obtain ⟨hne, htrimmed⟩ := Variable.name_of_parse hv
    refine ⟨hne, htrimmed, ?_, ?_⟩
    · intro e he
      cases he
    · intro other hother
      cases hother
      exact Variable.typeName_missing_iff hv

def lineOf (spelling : Text) : Text :=
  "\tstruct " ++ spelling ++ "   Value;   // 0x0040 (0x0004) [0x0000000000000000]   ( CPF_Edit )"

theorem identity_of_parse_vector :
    (parse (lineOf "FVector")).result =
      .ok (.member ⟨none, "Value", "Vector", ⟨[.edit], by decide⟩⟩) ∧
    Text.IsTrimmed "Value" ∧ ¬ (("Vector" : Text) = [] ∨ ("Vector" : Text) = "array<>") := by
  have hread : (parse (lineOf "FVector")).result =
      .ok (.member ⟨none, "Value", "Vector", ⟨[.edit], by decide⟩⟩) := by
    decide +kernel
  obtain ⟨-, htrimmed, -, htype⟩ := identity_of_parse hread
  refine ⟨hread, htrimmed, fun hmissing => ?_⟩
  obtain ⟨c, -, hc⟩ := (htype _ rfl).1 hmissing
  have hsubject : TypeName.subject? (Text.words (Member.clean (lineOf "FVector"))) =
      some "FVector" := by
    decide +kernel
  have hlength : 7 = 1 := congrArg List.length (Option.some.inj (hsubject.symm.trans hc))
  exact absurd hlength (by decide)

/-- A member whose type is one letter is read, and is written without a type. -/
theorem read_without_type :
    ∃ v, (parse (lineOf "T")).result = .ok (.member v) ∧ v.name = "Value" ∧ v.typeName = [] ∧
      v.render = "var()  Value;\n" := by
  refine ⟨⟨none, "Value", [], ⟨[.edit], by decide⟩⟩, ?_, rfl, rfl, ?_⟩
  · decide +kernel
  · decide +kernel

end Declaration

end UnrealDecl
