import UnrealDecl.Proofs.Header.Specification
import UnrealDecl.Proofs.Text.Words

namespace UnrealDecl

/-- A fragment in a text that has `n` more lines before it. -/
def Fragment.shift (n : Nat) (f : Fragment) : Fragment :=
  { f with line := f.line + n }

namespace Header

def sectionMarkers : List Text :=
  classMarker :: ignoredMarkers

theorem exists_begins {line word : Text} (hw : word ∈ sectionMarkers)
    (h : word <+: Text.trim line) : ∃ next, Begins line next := by
  rcases List.mem_cons.1 hw with rfl | hw
  · obtain ⟨dotted, hdotted⟩ := h
    exact ⟨_, ofClassName_begins hdotted.symm⟩
  · exact ⟨_, .ignored hw h⟩

/-- Every block that is opened is closed, by a line with a closing brace at its opener or below. -/
def Closed (ls : List Text) : Prop :=
  ∀ i, Opens ls i → ∃ line ∈ ls.drop i, '\x7d' ∈ line

theorem block_append {ls : List Text} (h : ∃ line ∈ ls, '\x7d' ∈ line) (more : List Text) :
    block (ls ++ more) = block ls := by
  induction ls with
  | nil =>
    obtain ⟨line, hm, -⟩ := h
    exact absurd hm List.not_mem_nil
  | cons first ls ih =>
    rw [List.cons_append, block_cons, block_cons]
    by_cases hc : '\x7d' ∈ first
    · rw [if_pos hc, if_pos hc]
    · obtain ⟨line, hm, hl⟩ := h
      rcases List.mem_cons.1 hm with rfl | hm
      · exact absurd hl hc
      · rw [if_neg hc, if_neg hc, ih ⟨line, hm, hl⟩]

theorem drop_block_append (ls more : List Text) :
    (ls ++ more).drop (block ls).length = ls.drop (block ls).length ++ more := by
  apply List.drop_append_of_le_length
  exact List.length_take_le' _ _

/-- Behind lines whose blocks are closed, a scan goes on in some section. -/
theorem exists_fragmentsFrom_append {ls : List Text} (hclosed : Closed ls) (more : List Text)
    (sec : Section) (number : Nat) {rest : List Text} {i : Nat} (hr : ls.drop i = rest)
    (hc : Clear ls i) :
    ∃ last, fragmentsFrom sec number (rest ++ more) =
      fragmentsFrom sec number rest ++ fragmentsFrom last (number + rest.length) more := by
  induction sec, number, rest using scan_induction generalizing i with
  | nil sec number => exact ⟨sec, by simp [fragmentsFrom]⟩
  | marker sec number line rest next hb ih =>
    obtain ⟨hl, hr⟩ := drop_eq_cons hr
    have ho : ¬ Opens ls i := fun h => hb.not_opener (h.marker hl)
    obtain ⟨last, hlast⟩ := ih hr (hc.succ ho)
    refine ⟨last, ?_⟩
    rw [List.cons_append, fragmentsFrom_marker hb, fragmentsFrom_marker hb, hlast,
      List.length_cons, Nat.add_right_comm, Nat.add_assoc]
  | opener sec number line rest hp ih =>
    obtain ⟨hl, -⟩ := drop_eq_cons hr
    have ho : Opens ls i := opens_iff.2 ⟨⟨line, hl, hp⟩, hc⟩
    have hdrop : ls.drop (i + (block (line :: rest)).length) =
        (line :: rest).drop (block (line :: rest)).length := by
      rw [← hr, List.drop_drop]
    have hclear : Clear ls (i + (block (line :: rest)).length) := hr ▸ ho.clear
    have hends : ∃ row ∈ line :: rest, '\x7d' ∈ row := hr ▸ hclosed i ho
    have hblock := block_append hends more
    have hlength : (block (line :: rest)).length ≤ (line :: rest).length :=
      List.length_take_le' _ _
    obtain ⟨last, hlast⟩ := ih hdrop hclear
    refine ⟨last, ?_⟩
    rw [List.cons_append] at hblock
    rw [List.cons_append, fragmentsFrom_opener hp, fragmentsFrom_opener hp, hblock,
      ← List.cons_append, drop_block_append, hlast, List.length_drop, Nat.add_assoc,
      Nat.add_sub_cancel' hlength]
    rfl
  | plain sec number line rest hm hp ih =>
    obtain ⟨hl, hr⟩ := drop_eq_cons hr
    have ho : ¬ Opens ls i := fun h => hp (h.marker hl)
    obtain ⟨last, hlast⟩ := ih hr (hc.succ ho)
    refine ⟨last, ?_⟩
    rw [List.cons_append, fragmentsFrom_plain hm hp, fragmentsFrom_plain hm hp, hlast,
      List.append_assoc, List.length_cons, Nat.add_right_comm, Nat.add_assoc]

theorem memberFragment_add (sec : Section) (number n : Nat) (line : Text) :
    memberFragment sec (number + n) line =
      (memberFragment sec number line).map (Fragment.shift n) := by
  cases sec with
  | preamble => rfl
  | ignored => rfl
  | ofClass owner =>
    rw [memberFragment, memberFragment]
    split <;> rfl

theorem fragmentsFrom_add (sec : Section) (number n : Nat) (ls : List Text) :
    fragmentsFrom sec (number + n) ls = (fragmentsFrom sec number ls).map (Fragment.shift n) := by
  induction sec, number, ls using scan_induction with
  | nil => simp [fragmentsFrom]
  | marker sec number line rest next hb ih =>
    rw [fragmentsFrom_marker hb, fragmentsFrom_marker hb, ← ih, Nat.add_right_comm]
  | opener sec number line rest hp ih =>
    rw [fragmentsFrom_opener hp, fragmentsFrom_opener hp, List.map_cons, ← ih,
      Nat.add_right_comm]
    rfl
  | plain sec number line rest hm hp ih =>
    rw [fragmentsFrom_plain hm hp, fragmentsFrom_plain hm hp, List.map_append, ← ih,
      memberFragment_add, Nat.add_right_comm]

/-- A text whose first line begins a section is scanned by itself: of what stands before it, only
the number of lines counts. -/
theorem fragments_append {a b : Text} (ha : a = [] ∨ a.getLast? = some '\n')
    (hclosed : Closed (Text.lines a))
    (hb : ∃ line, (Text.lines b).head? = some line ∧
      ∃ word ∈ sectionMarkers, word <+: Text.trim line) :
    fragments (a ++ b) =
      fragments a ++ (fragments b).map (Fragment.shift (Text.lines a).length) := by
  obtain ⟨line, hline, word, hword, hmarker⟩ := hb
  obtain ⟨next, hnext⟩ := exists_begins hword hmarker
  obtain ⟨rest, hlines⟩ := List.head?_eq_some_iff.1 hline
  have hclear : Clear (Text.lines a) 0 := fun j hj => absurd hj (Nat.not_lt_zero j)
  have hfirst : ∀ sec, fragmentsFrom sec (1 + (Text.lines a).length) (Text.lines b) =
      (fragments b).map (Fragment.shift (Text.lines a).length) := by
    intro sec
    rw [fragmentsFrom_add, fragments, hlines, fragmentsFrom_marker hnext,
      fragmentsFrom_marker hnext]
  obtain ⟨last, hlast⟩ :=
    exists_fragmentsFrom_append hclosed (Text.lines b) .preamble 1 rfl hclear
  rw [List.drop_zero, hfirst last] at hlast
  rw [fragments, Text.lines_append ha, hlast]
  rfl

def objectPart : Text :=
  Text.unlines ["// Enum Core.Object.EAxis", "\x7b\x7d;", "// Class Core.Object",
    "\tint   Flags;   // 0x0"]

def actorPart : Text :=
  Text.unlines ["// Function Core.Object.Foo", "\tint   A;   // 0x0", "// Class Core.Actor",
    "\tint   Speed;   // 0x4"]

theorem closed_objectPart : Closed (Text.lines objectPart) := by
  have hfirst : ∀ i < (Text.lines objectPart).length,
      ((Text.lines objectPart)[i]?.any fun line => enumMarker.isPrefixOf (Text.trim line)) →
        i = 0 := by
    decide +kernel
  intro i hopens
  obtain ⟨⟨line, hl, hp⟩, -⟩ := opens_iff.1 hopens
  have hmarked : ((Text.lines objectPart)[i]?.any fun line =>
      enumMarker.isPrefixOf (Text.trim line)) = true := by
    rw [hl, Option.any_some]
    exact List.isPrefixOf_iff_prefix.2 hp
  obtain rfl := hfirst i (List.getElem?_eq_some_iff.1 hl).1 hmarked
  exact ⟨"\x7b\x7d;", by decide +kernel, by decide⟩

theorem fragments_append_actorPart :
    Closed (Text.lines objectPart) ∧
    fragments (objectPart ++ actorPart) =
      fragments objectPart ++
        [⟨.member, some ⟨"Core", "Actor"⟩, "\tint   Speed;   // 0x4", 8⟩] := by
  have hwhole : objectPart.getLast? = some '\n' := by decide +kernel
  have hmarked : ∃ line, (Text.lines actorPart).head? = some line ∧
      ∃ word ∈ sectionMarkers, word <+: Text.trim line :=
    ⟨"// Function Core.Object.Foo", by decide +kernel, "// Function ", by decide, by decide +kernel⟩
  refine ⟨closed_objectPart, ?_⟩
  rw [fragments_append (.inr hwhole) closed_objectPart hmarked]
  decide +kernel

end Header

end UnrealDecl
