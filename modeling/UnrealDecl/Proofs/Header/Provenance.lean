import UnrealDecl.Proofs.Header.Specification
import UnrealDecl.Proofs.Member.Clean
import UnrealDecl.Proofs.Member.Reading

namespace UnrealDecl.Header

theorem isMember_of_mem {source : Text} {f : Fragment} (h : f ∈ fragments source)
    (hk : f.kind = .member) : isMember f.text = true := by
  obtain ⟨i, hf⟩ := mem_fragments_iff.1 h
  cases hf with
  | block => cases hk
  | member here outside sec hm => exact hm

theorem exists_cut_of_isMember {line : Text} (h : isMember line = true) :
    ∃ left comment, Text.cut "//" line = some (left, comment) := by
  rw [isMember] at h
  split at h
  · cases h
  · rename_i left comment hcut
    exact ⟨left, comment, hcut⟩

theorem clean_of_cut {line left comment : Text}
    (h : Text.cut "//" line = some (left, comment)) :
    ∃ rest, Member.clean line = Member.clean left ++ '/' :: rest := by
  have hline : line = left ++ '/' :: '/' :: comment := by
    rw [Text.eq_of_cut h]
    simp
  refine ⟨Member.clean ('/' :: comment), ?_⟩
  rw [hline]
  exact Member.clean_append_separator (by decide) (by decide) left ('/' :: comment)

/-- The name of a member is taken from its declaration, and not from the comment behind it, if a
wide gap follows the name in the declaration. -/
theorem name_in_declaration {source : Text} {f : Fragment} {v : Variable}
    (hf : f ∈ fragments source) (hk : f.kind = .member)
    (hv : (Variable.parse f.text).result = .ok v) :
    ∃ left comment, Text.cut "//" f.text = some (left, comment) ∧
      ∀ front back name,
        Member.clean left = front ++ (List.replicate Member.gapWidth ' ' ++ back) →
        Member.name? front = some name → v.name = name ∧ v.name <:+: Member.clean left := by
  obtain ⟨left, comment, hcut⟩ := exists_cut_of_isMember (isMember_of_mem hf hk)
  refine ⟨left, comment, hcut, fun front back name hspaced hname => ?_⟩
  obtain ⟨rest, hclean⟩ := clean_of_cut hcut
  obtain ⟨-, hread⟩ := Variable.head_eq_ok_iff.1 (Variable.head_of_parse hv)
  have hwhole : Member.name? (Member.clean f.text) = some name := by
    rw [hclean, hspaced, List.append_assoc, List.append_assoc]
    exact Member.name?_append_wide hname _
  have hsame : v.name = name := Option.some.inj (hread.symm.trans hwhole)
  have hpart : name <:+: Member.clean left := by
    rw [hspaced]
    exact (Member.infix_of_name? hname).trans (List.prefix_append _ _).isInfix
  exact ⟨hsame, hsame ▸ hpart⟩

def memberHeader (line : Text) : Text :=
  Text.unlines ["// Class Core.Object", line]

theorem name_in_declaration_health :
    ∃ f v, f ∈ fragments (memberHeader "\tint   Health;   // 0x0040 (0x0004)   ( CPF_Edit )") ∧
      (Variable.parse f.text).result = .ok v ∧ v.name = "Health" := by
  let f : Fragment := ⟨.member, some ⟨"Core", "Object"⟩,
    "\tint   Health;   // 0x0040 (0x0004)   ( CPF_Edit )", 2⟩
  let v : Variable := ⟨none, "Health", "int", ⟨[.edit], by decide⟩⟩
  have hf : f ∈ fragments
      (memberHeader "\tint   Health;   // 0x0040 (0x0004)   ( CPF_Edit )") := by
    decide +kernel
  have hv : (Variable.parse f.text).result = .ok v := by decide +kernel
  obtain ⟨left, comment, hcut, hname⟩ := name_in_declaration hf rfl hv
  have hleft : Text.cut "//" f.text =
      some (("\tint   Health;   " : Text), (" 0x0040 (0x0004)   ( CPF_Edit )" : Text)) := by
    decide +kernel
  cases hcut.symm.trans hleft
  obtain ⟨hsame, -⟩ := hname "\tint   Health" [] "Health" (by decide +kernel) (by decide +kernel)
  exact ⟨f, v, hf, hv, hsame⟩

/-- A member whose columns stand too close together is named by its comment. -/
theorem name_in_comment :
    ∃ f v left comment, f ∈ fragments (memberHeader "\tint A;   // 0x0000 (0x0004)") ∧
      f.kind = .member ∧ (Variable.parse f.text).result = .ok v ∧
      Text.cut "//" f.text = some (left, comment) ∧ v.name = "// 0x0000 (0x0004)" ∧
      ¬ v.name <:+: Member.clean left := by
  refine ⟨⟨.member, some ⟨"Core", "Object"⟩, "\tint A;   // 0x0000 (0x0004)", 2⟩,
    ⟨none, "// 0x0000 (0x0004)", "int", ⟨[], by decide⟩⟩, "\tint A;   ", " 0x0000 (0x0004)",
    ?_, rfl, ?_, ?_, rfl, ?_⟩
  · decide +kernel
  · decide +kernel
  · decide +kernel
  · decide +kernel

end UnrealDecl.Header
