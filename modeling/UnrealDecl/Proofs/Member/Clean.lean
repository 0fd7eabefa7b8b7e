import UnrealDecl.Member.Clutter

namespace UnrealDecl.Text

theorem prefix_append_cons_iff {word a b : Text} {c : Char} (hc : c ∉ word) :
    word <+: a ++ c :: b ↔ word <+: a := by
  constructor
  · intro h
    rcases Nat.lt_or_ge a.length word.length with hlt | hge
    · have hac : a ++ [c] <+: a ++ c :: b := ⟨b, by simp⟩
      obtain ⟨rest, hw⟩ : a ++ [c] <+: word := by
        apply List.prefix_of_prefix_length_le hac h
        rw [List.length_append, List.length_singleton]
        exact hlt
      exact absurd (by simp [← hw]) hc
    · exact List.prefix_of_prefix_length_le h (List.prefix_append a _) hge
  · intro h
    exact h.trans (List.prefix_append a _)

theorem removeFrom_append_cons {word : Text} {c : Char} (hw : word ≠ []) (hc : c ∉ word)
    (a b : Text) {skip : Nat} (hs : skip ≤ a.length) :
    removeFrom word skip (a ++ c :: b) = removeFrom word skip a ++ c :: removeFrom word 0 b := by
  induction a generalizing skip with
  | nil =>
    obtain rfl := Nat.le_zero.1 hs
    have hp : word.isPrefixOf (c :: b) = false := by
      apply Bool.eq_false_iff.2
      intro h
      have hnil := (prefix_append_cons_iff (a := []) hc).1 (List.isPrefixOf_iff_prefix.1 h)
      exact hw (List.prefix_nil.1 hnil)
    simp [removeFrom, hp]
  | cons d a ih =>
    cases skip with
    | succ skip => exact ih (Nat.le_of_succ_le_succ hs)
    | zero =>
      have hiff : word.isPrefixOf (d :: (a ++ c :: b)) = word.isPrefixOf (d :: a) := by
        apply Bool.eq_iff_iff.2
        rw [List.isPrefixOf_iff_prefix, List.isPrefixOf_iff_prefix]
        exact prefix_append_cons_iff (a := d :: a) hc
      rw [List.cons_append, removeFrom, removeFrom, hiff]
      split
      · rename_i hp
        apply ih
        have := (List.isPrefixOf_iff_prefix.1 hp).length_le
        rw [List.length_cons] at this
        omega
      · rw [ih (Nat.zero_le _), List.cons_append]

/-- Removing a word goes on separately on both sides of a character that is not in it. -/
theorem remove_append_cons {word : Text} {c : Char} (hw : word ≠ []) (hc : c ∉ word) (a b : Text) :
    remove word (a ++ c :: b) = remove word a ++ c :: remove word b := by
  simp only [remove, List.isEmpty_eq_false_iff.2 hw, Bool.false_eq_true, if_false]
  exact removeFrom_append_cons hw hc a b (Nat.zero_le _)

theorem remove_singleton (c : Char) (text : Text) : remove [c] text = text.filter (· != c) := by
  induction text with
  | nil => rfl
  | cons d text ih =>
    by_cases h : d = c
    · subst h
      have happ := remove_append_self (List.cons_ne_nil d []) text
      rw [List.cons_append, List.nil_append] at happ
      rw [happ, ih]
      simp
    · have hp : ¬ [c] <+: d :: text := by simpa [List.cons_prefix_cons] using Ne.symm h
      rw [remove_cons (List.cons_ne_nil c []) hp, ih]
      simp [h]

theorem removeFrom_sublist (word : Text) (skip : Nat) (text : Text) :
    (removeFrom word skip text).Sublist text := by
  induction text generalizing skip with
  | nil => cases skip <;> exact .slnil
  | cons c text ih =>
    cases skip with
    | succ skip => exact (ih skip).cons c
    | zero =>
      rw [removeFrom]
      split
      · exact (ih _).cons c
      · exact (ih 0).cons_cons c

theorem remove_sublist (word text : Text) : (remove word text).Sublist text := by
  rw [remove]
  split
  · exact .refl text
  · exact removeFrom_sublist word 0 text

theorem remove_eq_self_iff {word : Text} (hw : word ≠ []) (text : Text) :
    remove word text = text ↔ ¬ word <:+: text := by
  induction text with
  | nil => simp [hw]
  | cons c text ih =>
    rw [List.infix_cons_iff, not_or]
    by_cases hp : word <+: c :: text
    · refine ⟨fun h => ?_, fun h => absurd hp h.1⟩
      obtain ⟨rest, hrest⟩ := hp
      have hlength := (remove_sublist word rest).length_le
      rw [← remove_append_self hw, hrest, h, ← hrest, List.length_append] at hlength
      have hpos := List.length_pos_iff.2 hw
      omega
    · rw [remove_cons hw hp, List.cons_inj_right, ih, and_iff_right hp]

def removeAll (words : List Text) (text : Text) : Text :=
  words.foldl (fun text word => remove word text) text

theorem removeAll_sublist (words : List Text) (text : Text) :
    (removeAll words text).Sublist text := by
  induction words generalizing text with
  | nil => exact .refl text
  | cons word words ih => exact (ih (remove word text)).trans (remove_sublist word text)

theorem removeAll_eq_self_iff {words : List Text} (hw : ∀ word ∈ words, word ≠ []) (text : Text) :
    removeAll words text = text ↔ ∀ word ∈ words, ¬ word <:+: text := by
  induction words with
  | nil => simp [removeAll]
  | cons word words ih =>
    have hiff := remove_eq_self_iff (hw word (.head _)) text
    have hrest := ih fun w hm => hw w (.tail _ hm)
    have hcons : removeAll (word :: words) text = removeAll words (remove word text) := rfl
    rw [List.forall_mem_cons, ← hiff, ← hrest, hcons]
    constructor
    · intro h
      have hself : remove word text = text := by
        apply (remove_sublist word text).eq_of_length_le
        have hlength := (removeAll_sublist words (remove word text)).length_le
        rwa [h] at hlength
      rw [hself] at h
      exact ⟨hself, h⟩
    · rintro ⟨hself, h⟩
      rw [hself, h]

end UnrealDecl.Text

namespace UnrealDecl.Member

/-- The clutter of several characters. -/
def keywords : List Text :=
  ["struct", "class", "unsigned"]

def signs : Text :=
  "1;:<>*"

theorem mem_clutter_iff {word : Text} :
    word ∈ clutter ↔ word ∈ keywords ∨ ∃ c ∈ signs, [c] = word := by
  have hsplit : clutter = keywords ++ signs.map fun c => [c] := by decide
  rw [hsplit, List.mem_append, List.mem_map]

def stripKeywords (line : Text) : Text :=
  keywords.foldl (fun text word => Text.remove word text) line

theorem stripKeywords_append_cons {c : Char} (hc : ∀ word ∈ keywords, c ∉ word) (a b : Text) :
    stripKeywords (a ++ c :: b) = stripKeywords a ++ c :: stripKeywords b := by
  have hfold : ∀ words ⊆ keywords, ∀ a b : Text,
      words.foldl (fun text word => Text.remove word text) (a ++ c :: b) =
        words.foldl (fun text word => Text.remove word text) a ++
          c :: words.foldl (fun text word => Text.remove word text) b := by
    intro words hwords
    induction words with
    | nil =>
      intro a b
      rfl
    | cons word words ih =>
      obtain ⟨hword, hwords⟩ := List.cons_subset.1 hwords
      have hne : word ≠ [] := (by decide : ∀ word ∈ keywords, word ≠ []) word hword
      intro a b
      rw [List.foldl_cons, Text.remove_append_cons hne (hc word hword), ih hwords]
      rfl
  exact hfold keywords (List.Subset.refl _) a b

theorem clean_eq (line : Text) : clean line = (stripKeywords line).filter (· ∉ signs) := by
  have hfold : ∀ (cs : Text) (text : Text),
      (cs.map fun c => [c]).foldl (fun text word => Text.remove word text) text =
        text.filter (· ∉ cs) := by
    intro cs
    induction cs with
    | nil =>
      intro text
      exact (List.filter_eq_self.2 fun c _ => by simp).symm
    | cons c cs ih =>
      intro text
      rw [List.map_cons, List.foldl_cons, ih, Text.remove_singleton, List.filter_filter]
      apply List.filter_congr
      intro d _
      by_cases hd : d = c <;> simp [hd]
  exact hfold signs (stripKeywords line)

theorem clean_append_cons {c : Char} (hc : ∀ word ∈ keywords, c ∉ word) (a b : Text) :
    clean (a ++ c :: b) = clean a ++ clean (c :: b) := by
  have hcons := stripKeywords_append_cons hc [] b
  rw [List.nil_append] at hcons
  rw [clean_eq, clean_eq, clean_eq, stripKeywords_append_cons hc, hcons, List.filter_append]
  rfl

theorem clean_cons {c : Char} (hc : ∀ word ∈ keywords, c ∉ word) (b : Text) :
    clean (c :: b) = if c ∈ signs then clean b else c :: clean b := by
  have hcons := stripKeywords_append_cons hc [] b
  rw [List.nil_append] at hcons
  rw [clean_eq, clean_eq, hcons]
  have hnil : stripKeywords [] = [] := by decide
  rw [hnil, List.nil_append, List.filter_cons]
  by_cases h : c ∈ signs <;> simp [h]

/-- Cleaning goes on separately on both sides of a character that no clutter has. -/
theorem clean_append_separator {c : Char} (hk : ∀ word ∈ keywords, c ∉ word) (hs : c ∉ signs)
    (a b : Text) : clean (a ++ c :: b) = clean a ++ c :: clean b := by
  rw [clean_append_cons hk, clean_cons hk, if_neg hs]

theorem not_mem_clean {c : Char} (h : c ∈ signs) (line : Text) : c ∉ clean line := by
  intro hm
  rw [clean_eq, List.mem_filter] at hm
  simpa [h] using hm.2

theorem clean_sublist (line : Text) : (clean line).Sublist line :=
  Text.removeAll_sublist clutter line

/-- Cleaning keeps exactly the texts in which no clutter occurs. -/
theorem clean_eq_self_iff (text : Text) : clean text = text ↔ ∀ word ∈ clutter, ¬ word <:+: text :=
  Text.removeAll_eq_self_iff (by decide) text

end UnrealDecl.Member
