import UnrealDecl.Proofs.Text.Words

namespace UnrealDecl.Text

theorem lines_append_feed {line : Text} (h : '\n' ∉ line) (rest : Text) :
    lines (line ++ '\n' :: rest) = closeLine line.reverse :: lines rest := by
  rw [lines, linesFrom_append h, List.append_nil]

theorem closeLine_concat_return (line : Text) : closeLine (line ++ ['\r']).reverse = line := by
  rw [List.reverse_concat, closeLine, List.reverse_reverse]

theorem linesFrom_of_not_mem {text : Text} (h : '\n' ∉ text) (acc : Text) :
    linesFrom acc text = if (text.reverse ++ acc).isEmpty then [] else [acc.reverse ++ text] := by
  induction text generalizing acc with
  | nil => simp [linesFrom]
  | cons c text ih =>
    obtain ⟨hc, ht⟩ := List.ne_and_not_mem_of_not_mem_cons h
    rw [linesFrom, if_neg (Ne.symm hc), ih ht]
    simp

theorem lines_eq_singleton {text : Text} (hne : text ≠ []) (h : '\n' ∉ text) :
    lines text = [text] := by
  rw [lines, linesFrom_of_not_mem h, if_neg (by simpa using hne)]
  rfl

theorem unlines_linesFrom {acc text : Text} (ha : '\r' ∉ acc) (h : '\r' ∉ text) :
    unlines (linesFrom acc text) = acc.reverse ++ text ∨
      unlines (linesFrom acc text) = acc.reverse ++ text ++ ['\n'] := by
  induction text generalizing acc with
  | nil =>
    rw [linesFrom]
    split
    · rename_i hacc
      rw [List.isEmpty_iff.1 hacc]
      exact .inl rfl
    · exact .inr (by simp)
  | cons c text ih =>
    obtain ⟨hc, ht⟩ := List.ne_and_not_mem_of_not_mem_cons h
    rw [linesFrom]
    split
    · rename_i hfeed
      rw [unlines_cons, closeLine_eq_reverse ha, hfeed]
      apply (ih List.not_mem_nil ht).imp
      · intro he
        rw [he]
        rfl
      · intro he
        rw [he]
        simp
    · have hacc : '\r' ∉ c :: acc := List.not_mem_cons_of_ne_of_not_mem hc ha
      simpa using ih hacc ht

theorem unlines_lines {text : Text} (h : '\r' ∉ text) :
    unlines (lines text) = text ∨ unlines (lines text) = text ++ ['\n'] :=
  unlines_linesFrom List.not_mem_nil h

theorem mem_of_mem_linesFrom {acc text line : Text} {c : Char} (hl : line ∈ linesFrom acc text)
    (hc : c ∈ line) : c ∈ acc ∨ c ∈ text := by
  induction text generalizing acc with
  | nil =>
    rw [linesFrom] at hl
    split at hl
    · cases hl
    · obtain rfl := List.mem_singleton.1 hl
      exact .inl (List.mem_reverse.1 hc)
  | cons d text ih =>
    rw [linesFrom] at hl
    split at hl
    · rcases List.mem_cons.1 hl with rfl | hl
      · exact .inl (mem_of_mem_closeLine hc)
      · rcases ih hl with h | h
        · cases h
        · exact .inr (.tail _ h)
    · rcases ih hl with h | h
      · rcases List.mem_cons.1 h with rfl | h
        · exact .inr (.head _)
        · exact .inl h
      · exact .inr (.tail _ h)

theorem mem_of_mem_lines {text line : Text} {c : Char} (hl : line ∈ lines text) (hc : c ∈ line) :
    c ∈ text := by
  rcases mem_of_mem_linesFrom hl hc with h | h
  · cases h
  · exact h

theorem words_closeLine (line : Text) : words (closeLine line.reverse) = words line := by
  rcases List.eq_nil_or_concat' line with rfl | ⟨front, c, rfl⟩
  · rfl
  · by_cases hc : c = '\r'
    · subst hc
      rw [closeLine_concat_return]
      exact ((tokens_append_cons (by decide) front []).trans (List.append_nil _)).symm
    · rw [List.reverse_concat, closeLine.eq_def]
      split
      · rename_i rest hrest
        exact absurd (List.cons.inj hrest).1 hc
      · rw [List.reverse_cons, List.reverse_reverse]

theorem exists_lines_title {title : Text} {c : Char} (h : '\n' ∉ title) (hc : isBlank c = true)
    (tail : Text) :
    ∃ header later more, lines (title ++ c :: tail) = header :: later ∧
      words header = words title ++ more := by
  by_cases hfeed : c = '\n'
  · subst hfeed
    refine ⟨_, _, [], lines_append_feed h tail, ?_⟩
    rw [words_closeLine, List.append_nil]
  · have hline : ∀ {rest : Text}, '\n' ∉ rest → '\n' ∉ title ++ c :: rest := by
      intro rest hrest
      simp [h, hrest, Ne.symm hfeed]
    by_cases hmem : '\n' ∈ tail
    · obtain ⟨rest, after, rfl, hrest⟩ := List.eq_append_cons_of_mem hmem
      have hsplit := lines_append_feed (hline hrest) after
      rw [List.append_assoc, List.cons_append] at hsplit
      refine ⟨_, _, words rest, hsplit, ?_⟩
      rw [words_closeLine]
      exact tokens_append_cons hc title rest
    · refine ⟨_, _, words tail, lines_eq_singleton (by simp) (hline hmem), ?_⟩
      exact tokens_append_cons hc title tail

/-- What a text has behind its first `n` line feeds. -/
def dropLines : Nat → Text → Text
  | 0, text => text
  | n + 1, text =>
    match cut "\n" text with
    | some (_, rest) => dropLines n rest
    | none => []

theorem lines_dropLines (n : Nat) (text : Text) :
    lines (dropLines n text) = (lines text).drop n := by
  induction n generalizing text with
  | zero => rfl
  | succ n ih =>
    rw [dropLines]
    cases hcut : cut "\n" text with
    | none =>
      have hfeed : '\n' ∉ text := mt (List.singleton_infix_iff _ _).2 (cut_eq_none_iff.1 hcut)
      change [] = (lines text).drop (n + 1)
      by_cases hne : text = []
      · rw [hne]
        rfl
      · rw [lines_eq_singleton hne hfeed]
        exact List.drop_nil.symm
    | some parts =>
      have htext := eq_of_cut hcut
      rw [List.append_assoc] at htext
      dsimp only
      rw [ih, htext]
      exact congrArg (List.drop (n + 1)) (lines_append_feed (not_mem_of_cut hcut) parts.2).symm

theorem dropLines_subset (n : Nat) (text : Text) : dropLines n text ⊆ text := by
  induction n generalizing text with
  | zero => exact List.Subset.refl text
  | succ n ih =>
    rw [dropLines]
    cases hcut : cut "\n" text with
    | none => exact List.nil_subset _
    | some parts =>
      rw [eq_of_cut hcut]
      exact fun c hc => List.mem_append_right _ (ih parts.2 hc)

end UnrealDecl.Text
