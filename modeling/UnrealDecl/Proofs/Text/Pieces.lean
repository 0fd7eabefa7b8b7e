import Mathlib.Data.List.Infix
import Mathlib.Data.List.TakeWhile
import UnrealDecl.Text.Blank

namespace UnrealDecl.Text

/-- Looks at the characters of a text only, where a search through all characters would not end. -/
instance decidableForallMem {p : Char → Prop} [DecidablePred p] (text : Text) :
    Decidable (∀ c ∈ text, p c) :=
  List.decidableBAll p text

theorem occurs_singleton {c : Char} {text : Text} : occurs [c] text = true ↔ c ∈ text := by
  rw [occurs_iff, List.singleton_infix_iff]

theorem not_mem_of_cut {c : Char} {text before after : Text}
    (h : cut [c] text = some (before, after)) : c ∉ before := by
  induction text generalizing before with
  | nil => simp [cut] at h
  | cons d text ih =>
    rw [cut] at h
    split at h
    · cases h
      simp
    · rename_i hp
      obtain ⟨⟨before', after'⟩, hcut, he⟩ := Option.map_eq_some_iff.1 h
      cases he
      have hd : c ≠ d := by
        rintro rfl
        exact hp (by simp [List.isPrefixOf])
      simpa [hd] using ih hcut

theorem cut_append {c : Char} {before : Text} (h : c ∉ before) (word after : Text) :
    cut (c :: word) (before ++ c :: (word ++ after)) = some (before, after) := by
  induction before with
  | nil =>
    have hp : (c :: word).isPrefixOf (c :: (word ++ after)) = true :=
      List.isPrefixOf_iff_prefix.2 ⟨after, rfl⟩
    simp [cut, hp]
  | cons d before ih =>
    obtain ⟨hd, hb⟩ := List.ne_and_not_mem_of_not_mem_cons h
    have hp : (c == d) = false := by simpa using hd
    simp [cut, List.isPrefixOf, hp, ih hb]

variable {sep : Char → Bool}

theorem splitWhere_eq_singleton {piece : Text} (h : ∀ c ∈ piece, sep c = false) :
    splitWhere sep piece = [piece] := by
  induction piece with
  | nil => rfl
  | cons c piece ih =>
    rw [splitWhere_cons_of_not_sep (h c (.head _)), ih fun d hd => h d (.tail _ hd)]
    rfl

theorem splitWhere_append_cons {c : Char} (hc : sep c = true) (text rest : Text) :
    splitWhere sep (text ++ c :: rest) = splitWhere sep text ++ splitWhere sep rest := by
  induction text with
  | nil => exact splitWhere_cons_of_sep hc rest
  | cons d text ih =>
    cases hd : sep d with
    | true =>
      rw [List.cons_append, splitWhere_cons_of_sep hd, splitWhere_cons_of_sep hd, ih,
        List.cons_append]
    | false =>
      obtain ⟨first, pieces, hs⟩ := List.exists_cons_of_ne_nil (splitWhere_ne_nil sep text)
      rw [List.cons_append, splitWhere_cons_of_not_sep hd, splitWhere_cons_of_not_sep hd, ih, hs]
      rfl

theorem splitWhere_append {piece : Text} {c : Char} (h : ∀ d ∈ piece, sep d = false)
    (hc : sep c = true) (rest : Text) :
    splitWhere sep (piece ++ c :: rest) = piece :: splitWhere sep rest := by
  rw [splitWhere_append_cons hc, splitWhere_eq_singleton h, List.singleton_append]

theorem sep_of_mem_splitWhere {text piece : Text} (hp : piece ∈ splitWhere sep text) :
    ∀ c ∈ piece, sep c = false := by
  induction text generalizing piece with
  | nil =>
    obtain rfl := List.mem_singleton.1 hp
    simp
  | cons d text ih =>
    cases hd : sep d with
    | true =>
      rw [splitWhere_cons_of_sep hd] at hp
      rcases List.mem_cons.1 hp with rfl | hp
      · simp
      · exact ih hp
    | false =>
      obtain ⟨first, pieces, hs⟩ := List.exists_cons_of_ne_nil (splitWhere_ne_nil sep text)
      rw [splitWhere_cons_of_not_sep hd, hs, consFirst_cons] at hp
      rw [hs] at ih
      rcases List.mem_cons.1 hp with rfl | hp
      · intro c hc
        rcases List.mem_cons.1 hc with rfl | hc
        · exact hd
        · exact ih (.head _) c hc
      · exact ih (.tail _ hp)

theorem length_splitWhere (sep : Char → Bool) (text : Text) :
    (splitWhere sep text).length = text.countP sep + 1 := by
  induction text with
  | nil => rfl
  | cons c text ih =>
    cases hc : sep c with
    | true => rw [splitWhere_cons_of_sep hc, List.length_cons, ih, List.countP_cons_of_pos hc]
    | false =>
      obtain ⟨first, pieces, hs⟩ := List.exists_cons_of_ne_nil (splitWhere_ne_nil sep text)
      rw [hs, List.length_cons] at ih
      rw [splitWhere_cons_of_not_sep hc, hs, consFirst_cons, List.length_cons, ih,
        List.countP_cons_of_neg (by simp [hc])]

theorem sublist_of_mem_splitWhere {text piece : Text} (h : piece ∈ splitWhere sep text) :
    piece.Sublist text := by
  induction text generalizing piece with
  | nil =>
    obtain rfl := List.mem_singleton.1 h
    exact .refl _
  | cons c text ih =>
    cases hc : sep c with
    | true =>
      rw [splitWhere_cons_of_sep hc] at h
      rcases List.mem_cons.1 h with rfl | h
      · exact List.nil_sublist _
      · exact (ih h).cons c
    | false =>
      obtain ⟨first, rest, hs⟩ := List.exists_cons_of_ne_nil (splitWhere_ne_nil sep text)
      rw [splitWhere_cons_of_not_sep hc, hs, consFirst_cons] at h
      rw [hs] at ih
      rcases List.mem_cons.1 h with rfl | h
      · exact (ih (.head _)).cons_cons c
      · exact (ih (.tail _ h)).cons c

theorem trimStart_append {blank : Text} (h : ∀ c ∈ blank, isBlank c = true) (text : Text) :
    trimStart (blank ++ text) = trimStart text := by
  exact List.dropWhile_append_of_pos h

theorem trim_of_blank {text : Text} (h : ∀ c ∈ text, isBlank c = true) : trim text = [] := by
  have hs : trimStart text = [] := List.dropWhile_eq_nil_iff.2 h
  rw [trim, hs]
  rfl

theorem exists_trim (text : Text) :
    ∃ left right, text = left ++ trim text ++ right ∧ (∀ c ∈ left, isBlank c = true) ∧
      ∀ c ∈ right, isBlank c = true := by
  let back := (trimStart text).reverse
  refine ⟨text.takeWhile isBlank, (back.takeWhile isBlank).reverse, ?_, ?_, ?_⟩
  · have hb : (back.dropWhile isBlank).reverse ++ (back.takeWhile isBlank).reverse =
        trimStart text := by
      rw [← List.reverse_append, List.takeWhile_append_dropWhile, List.reverse_reverse]
    rw [List.append_assoc, trim, trimEnd, hb]
    exact List.takeWhile_append_dropWhile.symm
  · intro c hc
    exact List.mem_takeWhile_imp hc
  · intro c hc
    exact List.mem_takeWhile_imp (List.mem_reverse.1 hc)

theorem trim_eq_nil_iff {text : Text} : trim text = [] ↔ ∀ c ∈ text, isBlank c = true := by
  refine ⟨fun h => ?_, trim_of_blank⟩
  obtain ⟨left, right, htext, hleft, hright⟩ := exists_trim text
  rw [h, List.append_nil] at htext
  intro c hc
  rw [htext] at hc
  exact (List.mem_append.1 hc).elim (hleft c) (hright c)

end UnrealDecl.Text
