import UnrealDecl.Header.Scan
import UnrealDecl.Proofs.Text.Pieces

namespace UnrealDecl.Header

/-- The lines through the first that has a closing brace, or all of them if none has one. -/
def block (ls : List Text) : List Text :=
  ls.take (ls.findIdx (fun line => '\x7d' ∈ line) + 1)

/-- A line begins a section by its marker. -/
inductive Begins (line : Text) : Section → Prop
  | ofClass {dotted : Text} {owner : ClassFile} (marker : Text.trim line = classMarker ++ dotted)
      (name : ClassFile.parse? (Text.trim dotted) = some owner) : Begins line (.ofClass owner)
  | malformed {dotted : Text} (marker : Text.trim line = classMarker ++ dotted)
      (name : ClassFile.parse? (Text.trim dotted) = none) : Begins line .ignored
  | ignored {word : Text} (known : word ∈ ignoredMarkers) (marker : word <+: Text.trim line) :
      Begins line .ignored

theorem closesBlock_iff {line : Text} : closesBlock line = true ↔ '\x7d' ∈ line :=
  Text.occurs_singleton

theorem block_cons (line : Text) (rest : List Text) :
    block (line :: rest) = line :: if '\x7d' ∈ line then [] else block rest := by
  by_cases h : '\x7d' ∈ line
  · have hf : (line :: rest).findIdx (fun line => '\x7d' ∈ line) = 0 := by
      simp [List.findIdx_cons, h]
    rw [block, hf, if_pos h]
    rfl
  · simp [block, List.findIdx_cons, h]

theorem block_length_pos {ls : List Text} {i : Nat} {line : Text} (h : ls[i]? = some line) :
    0 < (block (ls.drop i)).length := by
  obtain ⟨hi, -⟩ := List.getElem?_eq_some_iff.1 h
  rw [List.drop_eq_getElem_cons hi, block_cons]
  exact Nat.succ_pos _

theorem drop_eq_cons {ls rest : List Text} {i : Nat} {line : Text}
    (h : ls.drop i = line :: rest) : ls[i]? = some line ∧ ls.drop (i + 1) = rest := by
  constructor
  · rw [← List.head?_drop, h, List.head?_cons]
  · rw [← List.tail_drop, h, List.tail_cons]

theorem after?_eq_some_iff {start text rest : Text} :
    after? start text = some rest ↔ text = start ++ rest := by
  rw [after?]
  constructor
  · intro h
    split at h
    · rename_i hp
      obtain ⟨tail, rfl⟩ := List.isPrefixOf_iff_prefix.1 hp
      simpa using h
    · cases h
  · rintro rfl
    simp

theorem after?_eq_none_iff {start text : Text} : after? start text = none ↔ ¬ start <+: text := by
  rw [after?, ← List.isPrefixOf_iff_prefix]
  split <;> simp_all

def markers : List Text :=
  classMarker :: enumMarker :: ignoredMarkers

theorem marker_unique {p q text : Text} (hp : p ∈ markers) (hq : q ∈ markers)
    (hpt : p <+: text) (hqt : q <+: text) : p = q := by
  have clash : ∀ p ∈ markers, ∀ q ∈ markers, p <+: q → p = q := by decide
  rcases List.prefix_or_prefix_of_prefix hpt hqt with h | h
  · exact clash p hp q hq h
  · exact (clash q hq p hp h).symm

theorem mem_markers_of_ignored {word : Text} (h : word ∈ ignoredMarkers) : word ∈ markers :=
  .tail _ (.tail _ h)

theorem after?_class_eq_none {word text : Text} (hw : word ∈ markers) (hc : word ≠ classMarker)
    (h : word <+: text) : after? classMarker text = none :=
  after?_eq_none_iff.2 fun hp => hc (marker_unique hw (.head _) h hp)

theorem ofClassName_begins {line dotted : Text} (h : Text.trim line = classMarker ++ dotted) :
    Begins line (.ofClassName dotted) := by
  cases hn : ClassFile.parse? (Text.trim dotted) with
  | some owner =>
    rw [Section.ofClassName, hn]
    exact .ofClass h hn
  | none =>
    rw [Section.ofClassName, hn]
    exact .malformed h hn

theorem of_eq_marker_iff {line : Text} {sec : Section} :
    Line.of line = .marker sec ↔ Begins line sec := by
  constructor
  · intro h
    rw [Line.of] at h
    split at h
    · rename_i dotted hd
      cases h
      exact ofClassName_begins (after?_eq_some_iff.1 hd)
    · split at h
      · rename_i hm
        obtain ⟨word, hw, hp⟩ := List.any_eq_true.1 hm
        cases h
        exact .ignored hw (List.isPrefixOf_iff_prefix.1 hp)
      · split at h <;> cases h
  · intro h
    cases h with
    | ofClass marker name =>
      simp only [Line.of, after?_eq_some_iff.2 marker, Section.ofClassName, name]
    | malformed marker name =>
      simp only [Line.of, after?_eq_some_iff.2 marker, Section.ofClassName, name]
    | @ignored word known marker =>
      have hc : word ≠ classMarker := by
        rintro rfl
        exact absurd known (by decide)
      have hany : (ignoredMarkers.any fun marker => marker.isPrefixOf (Text.trim line)) = true :=
        List.any_eq_true.2 ⟨word, known, List.isPrefixOf_iff_prefix.2 marker⟩
      simp only [Line.of, after?_class_eq_none (mem_markers_of_ignored known) hc marker, hany,
        if_true]

theorem of_eq_opener_iff {line : Text} :
    Line.of line = .opener ↔ enumMarker <+: Text.trim line := by
  have he : enumMarker ∈ markers := .tail _ (.head _)
  constructor
  · intro h
    rw [Line.of] at h
    split at h
    · cases h
    · split at h
      · cases h
      · split at h
        · exact List.isPrefixOf_iff_prefix.1 ‹_›
        · cases h
  · intro h
    have hc : after? classMarker (Text.trim line) = none := after?_class_eq_none he (by decide) h
    have hany : (ignoredMarkers.any fun marker => marker.isPrefixOf (Text.trim line)) = false := by
      apply Bool.eq_false_iff.2
      intro hm
      obtain ⟨word, hw, hp⟩ := List.any_eq_true.1 hm
      have heq := marker_unique he (mem_markers_of_ignored hw) h (List.isPrefixOf_iff_prefix.1 hp)
      exact absurd (heq ▸ hw) (by decide)
    simp only [Line.of, hc, hany, List.isPrefixOf_iff_prefix.2 h, if_true, Bool.false_eq_true,
      if_false]

theorem Begins.unique {line : Text} {s t : Section} (hs : Begins line s) (ht : Begins line t) :
    s = t := by
  have h := (of_eq_marker_iff.2 hs).symm.trans (of_eq_marker_iff.2 ht)
  cases h
  rfl

theorem isMember_eq_false {line word : Text} (hw : word ∈ markers)
    (h : word <+: Text.trim line) : isMember line = false := by
  obtain ⟨left, right, he, hl, -⟩ := Text.exists_trim line
  obtain ⟨tail, ht⟩ : ("//" : Text) <+: Text.trim line := by
    have slashes : ∀ w ∈ markers, ("//" : Text) <+: w := by decide
    exact (slashes word hw).trans h
  have hslash : '/' ∉ left := fun hm => absurd (hl _ hm) (by decide)
  have hcut : Text.cut "//" line = some (left, tail ++ right) := by
    rw [he, ← ht, List.append_assoc]
    simpa using Text.cut_append hslash ['/'] (tail ++ right)
  simp only [isMember, hcut, Text.trim_of_blank hl]
  rfl

theorem Begins.isMember_eq_false {line : Text} {sec : Section} (h : Begins line sec) :
    isMember line = false := by
  cases h with
  | ofClass marker name => exact Header.isMember_eq_false (.head _) ⟨_, marker.symm⟩
  | malformed marker name => exact Header.isMember_eq_false (.head _) ⟨_, marker.symm⟩
  | ignored known marker =>
    exact Header.isMember_eq_false (mem_markers_of_ignored known) marker

/-- An open block takes the lines of `block`; then the scan goes on in the section it was in. -/
theorem blockFrom_eq (sec : Section) (b : Block) (number : Nat) (ls : List Text) :
    blockFrom sec b number ls =
      ⟨.enumeration, none, Text.unlines (b.rows.reverse ++ block ls), b.line⟩ ::
        fragmentsFrom sec (number + (block ls).length) (ls.drop (block ls).length) := by
  induction ls generalizing b number with
  | nil => simp [blockFrom, fragmentsFrom, Block.fragment, block]
  | cons line rest ih =>
    rw [blockFrom, block_cons]
    by_cases h : closesBlock line = true
    · simp [h, closesBlock_iff.1 h, Block.fragment, Block.push]
    · have hb : '\x7d' ∉ line := fun hm => h (closesBlock_iff.2 hm)
      simp [h, hb, ih, Block.push, Nat.add_assoc, Nat.add_comm 1]

theorem fragmentsFrom_marker {sec next : Section} {line : Text} (h : Begins line next)
    (number : Nat) (rest : List Text) :
    fragmentsFrom sec number (line :: rest) = fragmentsFrom next (number + 1) rest := by
  rw [fragmentsFrom, of_eq_marker_iff.2 h]

theorem fragmentsFrom_opener {line : Text} (h : enumMarker <+: Text.trim line) (sec : Section)
    (number : Nat) (rest : List Text) :
    fragmentsFrom sec number (line :: rest) =
      ⟨.enumeration, none, Text.unlines (block (line :: rest)), number⟩ ::
        fragmentsFrom sec (number + (block (line :: rest)).length)
          ((line :: rest).drop (block (line :: rest)).length) := by
  rw [fragmentsFrom, of_eq_opener_iff.2 h, block_cons]
  by_cases hc : closesBlock line = true
  · simp [hc, closesBlock_iff.1 hc, Block.fragment]
  · have hb : '\x7d' ∉ line := fun hm => hc (closesBlock_iff.2 hm)
    simp [hc, hb, blockFrom_eq, Nat.add_assoc, Nat.add_comm 1]

theorem fragmentsFrom_plain {line : Text} (hm : ∀ next, ¬ Begins line next)
    (ho : ¬ enumMarker <+: Text.trim line) (sec : Section) (number : Nat) (rest : List Text) :
    fragmentsFrom sec number (line :: rest) =
      memberFragment sec number line ++ fragmentsFrom sec (number + 1) rest := by
  have hp : Line.of line = .plain := by
    cases h : Line.of line with
    | marker next => exact absurd (of_eq_marker_iff.1 h) (hm next)
    | opener => exact absurd (of_eq_opener_iff.1 h) ho
    | plain => rfl
  rw [fragmentsFrom, hp]

theorem mem_memberFragment_iff {sec : Section} {number : Nat} {line : Text} {f : Fragment} :
    f ∈ memberFragment sec number line ↔
      ∃ owner, sec = .ofClass owner ∧ isMember line = true ∧
        f = ⟨.member, some owner, line, number⟩ := by
  cases sec with
  | preamble => simp [memberFragment]
  | ignored => simp [memberFragment]
  | ofClass owner =>
    by_cases h : isMember line = true <;> simp [memberFragment, h]

/-- Induction along a scan: a marker and a plain line take one line, an opener its block. -/
@[elab_as_elim]
theorem scan_induction {motive : Section → Nat → List Text → Prop}
    (nil : ∀ sec number, motive sec number [])
    (marker : ∀ sec number line rest next, Begins line next →
      motive next (number + 1) rest → motive sec number (line :: rest))
    (opener : ∀ sec number line rest, enumMarker <+: Text.trim line →
      motive sec (number + (block (line :: rest)).length)
        ((line :: rest).drop (block (line :: rest)).length) → motive sec number (line :: rest))
    (plain : ∀ sec number line rest, (∀ next, ¬ Begins line next) →
      ¬ enumMarker <+: Text.trim line → motive sec (number + 1) rest →
      motive sec number (line :: rest))
    (sec : Section) (number : Nat) (ls : List Text) : motive sec number ls := by
  match ls with
  | [] => exact nil sec number
  | line :: rest =>
    cases h : Line.of line with
    | marker next =>
      exact marker sec number line rest next (of_eq_marker_iff.1 h)
        (scan_induction nil marker opener plain next (number + 1) rest)
    | opener =>
      exact opener sec number line rest (of_eq_opener_iff.1 h)
        (scan_induction nil marker opener plain _ _ _)
    | plain =>
      have hm : ∀ next, ¬ Begins line next := by
        intro next hb
        rw [of_eq_marker_iff.2 hb] at h
        cases h
      have ho : ¬ enumMarker <+: Text.trim line := by
        intro hp
        rw [of_eq_opener_iff.2 hp] at h
        cases h
      exact plain sec number line rest hm ho
        (scan_induction nil marker opener plain sec (number + 1) rest)
termination_by ls.length
decreasing_by
  all_goals simp only [List.length_cons, List.length_drop, block_cons]
  all_goals omega

theorem le_line_of_mem {sec : Section} {number : Nat} {ls : List Text} {f : Fragment}
    (h : f ∈ fragmentsFrom sec number ls) : number ≤ f.line := by
  induction sec, number, ls using scan_induction with
  | nil => simp [fragmentsFrom] at h
  | marker sec number line rest next hb ih =>
    rw [fragmentsFrom_marker hb] at h
    exact Nat.le_of_succ_le (ih h)
  | opener sec number line rest hp ih =>
    rw [fragmentsFrom_opener hp] at h
    rcases List.mem_cons.1 h with rfl | h
    · exact Nat.le_refl _
    · exact Nat.le_trans (Nat.le_add_right _ _) (ih h)
  | plain sec number line rest hm ho ih =>
    rw [fragmentsFrom_plain hm ho] at h
    rcases List.mem_append.1 h with h | h
    · obtain ⟨owner, -, -, rfl⟩ := mem_memberFragment_iff.1 h
      exact Nat.le_refl _
    · exact Nat.le_of_succ_le (ih h)

theorem pairwise_line (sec : Section) (number : Nat) (ls : List Text) :
    (fragmentsFrom sec number ls).Pairwise fun f g => f.line < g.line := by
  induction sec, number, ls using scan_induction with
  | nil => simp [fragmentsFrom]
  | marker sec number line rest next hb ih =>
    rw [fragmentsFrom_marker hb]
    exact ih
  | opener sec number line rest hp ih =>
    rw [fragmentsFrom_opener hp]
    refine List.pairwise_cons.2 ⟨fun g hg => ?_, ih⟩
    have hpos : 0 < (block (line :: rest)).length := by simp [block_cons]
    exact Nat.lt_of_lt_of_le (Nat.lt_add_of_pos_right hpos) (le_line_of_mem hg)
  | plain sec number line rest hm ho ih =>
    rw [fragmentsFrom_plain hm ho]
    refine List.pairwise_append.2 ⟨?_, ih, fun f hf g hg => ?_⟩
    · cases sec with
      | ofClass owner => by_cases h : isMember line = true <;> simp [memberFragment, h]
      | preamble => simp [memberFragment]
      | ignored => simp [memberFragment]
    · obtain ⟨owner, -, -, rfl⟩ := mem_memberFragment_iff.1 hf
      exact le_line_of_mem hg

end UnrealDecl.Header
