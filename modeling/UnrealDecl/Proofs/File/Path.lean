import UnrealDecl.File.Path
import UnrealDecl.Proofs.Text.Words

namespace UnrealDecl

namespace Path

def names (path : Text) : List Text :=
  Text.tokens (· == '/') path

/-- Of some pieces, which are given from the last, those that name something, in their order. -/
def solid : List Text → List Text
  | [] => []
  | piece :: earlier => if isVoid piece earlier then solid earlier else solid earlier ++ [piece]

def rootOf (path : Text) : List Text :=
  if isAbsolute path then ["/"] else []

/-- The components of a path: the root, and what its pieces name. -/
def components (path : Text) : List Text :=
  rootOf path ++ solid (pieces path).reverse

example : components "a//./b/" = (["a", "b"] : List Text) ∧
    components "./a" = ([".", "a"] : List Text) ∧
    components "/../a" = (["/", "..", "a"] : List Text) := by decide

/-- A path stands inside a directory: its components begin with those of the directory, and none of
the others leads upwards. -/
def Inside (dir path : Text) : Prop :=
  ∃ rest, components path = components dir ++ rest ∧ (".." : Text) ∉ rest

theorem slash_not_mem {path piece : Text} (h : piece ∈ pieces path) : '/' ∉ piece := fun hm =>
  absurd (Text.sep_of_mem_splitWhere h '/' hm) (by decide)

theorem pieces_append (front part : Text) :
    pieces (front ++ '/' :: part) = pieces front ++ pieces part :=
  Text.splitWhere_append_cons rfl front part

theorem exists_join {base part : Text} (hb : base ≠ []) (h : isAbsolute part = false) :
    ∃ front, join base part = front ++ '/' :: part ∧ (base = front ∨ base = front ++ ['/']) := by
  rw [join, if_neg (by simp [h]), List.isEmpty_eq_false_iff.2 hb, Bool.false_or]
  split
  · rename_i hlast
    obtain ⟨front, c, rfl⟩ := (List.eq_nil_or_concat' base).resolve_left hb
    rw [List.getLast?_concat, beq_iff_eq, Option.some.injEq] at hlast
    subst hlast
    exact ⟨front, by simp, .inr rfl⟩
  · exact ⟨base, by simp, .inl rfl⟩

theorem join_nil {part : Text} (h : isAbsolute part = false) : join [] part = part := by
  simp [join, h]

theorem isAbsolute_append {front : Text} (hf : front ≠ []) (rest : Text) :
    isAbsolute (front ++ rest) = isAbsolute front := by
  obtain ⟨c, front, rfl⟩ := List.exists_cons_of_ne_nil hf
  rfl

section Join

variable {part : Text} (h : isAbsolute part = false) (base : Text)
include h

theorem isAbsolute_join : isAbsolute (join base part) = isAbsolute base := by
  rcases eq_or_ne base [] with rfl | hb
  · rw [join_nil h, h]
    rfl
  · obtain ⟨front, hjoin, hbase⟩ := exists_join hb h
    rw [hjoin]
    rcases eq_or_ne front [] with rfl | hf
    · obtain rfl := hbase.resolve_left hb
      rfl
    · rcases hbase with rfl | rfl
      · exact isAbsolute_append hf _
      · rw [isAbsolute_append hf, isAbsolute_append hf]

theorem names_join : names (join base part) = names base ++ names part := by
  rcases eq_or_ne base [] with rfl | hb
  · rw [join_nil h]
    rfl
  · obtain ⟨front, hjoin, hbase⟩ := exists_join hb h
    have hfront : names base = names front := by
      rcases hbase with rfl | rfl
      · rfl
      · exact (Text.tokens_append_cons rfl front []).trans (List.append_nil _)
    rw [hjoin, hfront]
    exact Text.tokens_append_cons rfl front part

end Join

theorem exists_solid_append (later earlier : List Text) :
    ∃ rest, solid (later ++ earlier) = solid earlier ++ rest ∧ rest ⊆ later ∧
      ∀ piece ∈ later, piece ≠ [] → piece ≠ "." → piece ∈ rest := by
  induction later with
  | nil => exact ⟨[], (List.append_nil _).symm, List.Subset.refl _, by simp⟩
  | cons piece later ih =>
    obtain ⟨rest, hrest, hsubset, hmem⟩ := ih
    rw [List.cons_append, solid]
    split
    · rename_i hv
      refine ⟨rest, hrest, List.subset_cons_of_subset _ hsubset, fun p hp hne hdot => ?_⟩
      rcases List.mem_cons.1 hp with rfl | hp
      · rw [isVoid, Bool.or_eq_true, Bool.and_eq_true, List.isEmpty_iff, beq_iff_eq] at hv
        exact absurd hv (not_or.2 ⟨hne, fun hv => hdot hv.1⟩)
      · exact hmem p hp hne hdot
    · refine ⟨rest ++ [piece], by rw [hrest, List.append_assoc], ?_, fun p hp hne hdot => ?_⟩
      · exact List.append_subset.2 ⟨List.subset_cons_of_subset _ hsubset, by simp⟩
      · rcases List.mem_cons.1 hp with rfl | hp
        · simp
        · exact List.mem_append_left _ (hmem p hp hne hdot)

theorem exists_components_join {part : Text} (h : isAbsolute part = false) (base : Text) :
    ∃ rest, components (join base part) = components base ++ rest ∧ rest ⊆ pieces part ∧
      ∀ piece ∈ pieces part, piece ≠ [] → piece ≠ "." → piece ∈ rest := by
  have happend : ∀ earlier, ∃ rest, solid ((pieces part).reverse ++ earlier) =
      solid earlier ++ rest ∧ rest ⊆ pieces part ∧
        ∀ piece ∈ pieces part, piece ≠ [] → piece ≠ "." → piece ∈ rest := by
    intro earlier
    obtain ⟨rest, hrest, hsubset, hmem⟩ := exists_solid_append (pieces part).reverse earlier
    exact ⟨rest, hrest, fun c hc => List.mem_reverse.1 (hsubset hc),
      fun c hc => hmem c (List.mem_reverse.2 hc)⟩
  rcases eq_or_ne base [] with rfl | hb
  · obtain ⟨rest, hrest, hpieces⟩ := happend []
    rw [List.append_nil] at hrest
    refine ⟨rest, ?_, hpieces⟩
    rw [join_nil h, components, rootOf, h, hrest]
    rfl
  · obtain ⟨front, hjoin, hbase⟩ := exists_join hb h
    have hfront : solid (pieces base).reverse = solid (pieces front).reverse := by
      rcases hbase with rfl | rfl
      · rfl
      · rw [pieces_append, List.reverse_append]
        rfl
    obtain ⟨rest, hrest, hpieces⟩ := happend (pieces front).reverse
    refine ⟨rest, ?_, hpieces⟩
    rw [components, components, rootOf, rootOf, isAbsolute_join h, hjoin, pieces_append,
      List.reverse_append, hrest, hfront, List.append_assoc]

theorem solid_settle (backwards : List Text) : solid (settle backwards) = solid backwards := by
  induction backwards with
  | nil => rfl
  | cons piece earlier ih =>
    rw [settle, solid]
    split
    · exact ih
    · rename_i hv
      rw [solid, if_neg hv]

theorem settle_suffix (backwards : List Text) : settle backwards <:+ backwards := by
  induction backwards with
  | nil => exact List.suffix_refl _
  | cons piece earlier ih =>
    rw [settle]
    split
    · exact ih.trans (List.suffix_cons piece earlier)
    · exact List.suffix_refl _

theorem ne_nil_of_settle {backwards kept : List Text} {piece : Text}
    (h : settle backwards = piece :: kept) : piece ≠ [] := by
  induction backwards with
  | nil => cases h
  | cons p earlier ih =>
    rw [settle] at h
    split at h
    · exact ih h
    · rename_i hv
      cases h
      rintro rfl
      exact hv rfl

theorem components_ofPieces {path : Text} {backwards : List Text}
    (h : backwards <:+ (pieces path).reverse) :
    components (ofPieces (if isAbsolute path then "/" else []) backwards) =
      rootOf path ++ solid backwards := by
  rw [← solid_settle backwards, ofPieces]
  cases hk : settle backwards with
  | nil =>
    rw [rootOf]
    cases isAbsolute path <;> decide
  | cons piece kept =>
    obtain ⟨later, hlater⟩ := hk ▸ (settle_suffix backwards).trans h
    have hpieces : pieces path = (piece :: kept).reverse ++ later.reverse := by
      rw [← List.reverse_append, hlater, List.reverse_reverse]
    have hne : (piece :: kept).reverse ≠ [] := by simp
    have hslash : ∀ p ∈ (piece :: kept).reverse, '/' ∉ p := by
      intro p hp
      have hpiece : p ∈ pieces path := by
        rw [hpieces]
        exact List.mem_append_left _ hp
      exact slash_not_mem hpiece
    have hsplit : pieces (Text.join "/" (piece :: kept).reverse) = (piece :: kept).reverse :=
      Text.splitWhere_join hne hslash
    have hjoin : Text.join "/" (piece :: kept).reverse ≠ [] := by
      intro hnil
      have hsingle : (piece :: kept).reverse = [[]] := by
        rw [← hsplit, hnil]
        rfl
      have hmem : piece ∈ ([[]] : List Text) := hsingle ▸ by simp
      exact ne_nil_of_settle hk (List.mem_singleton.1 hmem)
    have habs : isAbsolute (Text.join "/" (piece :: kept).reverse) = isAbsolute path := by
      have hpath : Text.join "/" (pieces path) = path := Text.join_splitWhere '/' path
      rw [hpieces] at hpath
      rcases eq_or_ne later.reverse [] with hl | hl
      · rw [hl, List.append_nil] at hpath
        rw [hpath]
      · rw [Text.join_append hne hl, List.append_assoc] at hpath
        rw [← hpath, isAbsolute_append hjoin]
    dsimp only
    rw [components, rootOf, rootOf, habs, hsplit, List.reverse_reverse]

theorem mem_above {root : Text} {backwards : List Text} {q : Text} (h : q ∈ above root backwards) :
    ∃ earlier, earlier <:+ backwards ∧ q = ofPieces root earlier := by
  induction backwards with
  | nil => cases h
  | cons piece earlier ih =>
    have hsuffix := List.suffix_cons piece earlier
    rw [above] at h
    split at h
    · obtain ⟨e, he, hq⟩ := ih h
      exact ⟨e, he.trans hsuffix, hq⟩
    · rcases List.mem_cons.1 h with rfl | h
      · exact ⟨earlier, hsuffix, rfl⟩
      · obtain ⟨e, he, hq⟩ := ih h
        exact ⟨e, he.trans hsuffix, hq⟩

theorem head?_above (root : Text) {backwards : List Text} (h : solid backwards ≠ []) :
    ∃ earlier, earlier <:+ backwards ∧ (above root backwards).head? = some (ofPieces root earlier) ∧
      solid earlier = (solid backwards).dropLast := by
  induction backwards with
  | nil => exact absurd rfl h
  | cons piece earlier ih =>
    have hsuffix := List.suffix_cons piece earlier
    rw [solid] at h
    rw [above, solid]
    split at h
    · rename_i hv
      obtain ⟨e, he, hhead, hsolid⟩ := ih h
      rw [if_pos hv, if_pos hv]
      exact ⟨e, he.trans hsuffix, hhead, hsolid⟩
    · rename_i hv
      rw [if_neg hv, if_neg hv]
      exact ⟨earlier, hsuffix, rfl, by rw [List.dropLast_concat]⟩

/-- The paths above a path are beginnings of it. -/
theorem components_prefix_of_mem_parents {path q : Text} (h : q ∈ parents path) :
    components q <+: components path := by
  obtain ⟨earlier, hsuffix, rfl⟩ := mem_above h
  obtain ⟨later, hlater⟩ := hsuffix
  obtain ⟨rest, hrest, -, -⟩ := exists_solid_append later earlier
  rw [components_ofPieces ⟨later, hlater⟩, components, ← hlater, hrest, ← List.append_assoc]
  exact List.prefix_append _ _

theorem components_parent? {path piece : Text} (h : piece ∈ components path) (hp : piece ≠ "/") :
    ∃ parent, parent? path = some parent ∧ components parent = (components path).dropLast := by
  have h : solid (pieces path).reverse ≠ [] := by
    intro hnil
    rw [components, hnil, List.append_nil, rootOf] at h
    split at h
    · exact hp (List.mem_singleton.1 h)
    · cases h
  obtain ⟨earlier, hsuffix, hhead, hsolid⟩ :=
    head?_above (if isAbsolute path then "/" else []) h
  refine ⟨_, hhead, ?_⟩
  rw [components_ofPieces hsuffix, hsolid, components, List.dropLast_append_of_ne_nil h]

end Path

end UnrealDecl
