import UnrealDecl.Flag.Region
import UnrealDecl.Proofs.Member.Clean
import UnrealDecl.Proofs.Text.Words

namespace UnrealDecl

/-- What holds of every text without separators, and of a text once it holds of the rest behind its
first separator, holds of every text. -/
@[elab_as_elim]
theorem Text.separator_induction (sep : Char → Bool) {motive : Text → Prop}
    (solid : ∀ text, (∀ c ∈ text, sep c = false) → motive text)
    (separated : ∀ front c rest, (∀ d ∈ front, sep d = false) → sep c = true → motive rest →
      motive (front ++ c :: rest)) (text : Text) : motive text := by
  have hfrom : ∀ rest front : Text, (∀ d ∈ front, sep d = false) → motive (front ++ rest) := by
    intro rest
    induction rest with
    | nil =>
      intro front hfront
      rw [List.append_nil]
      exact solid front hfront
    | cons c rest ih =>
      intro front hfront
      cases hc : sep c with
      | true => exact separated front c rest hfront hc (ih [] (by simp))
      | false =>
        rw [List.append_cons]
        apply ih
        intro d hd
        rcases List.mem_append.1 hd with hd | hd
        · exact hfront d hd
        · rwa [List.mem_singleton.1 hd]
  exact hfrom text [] (by simp)

namespace Member

/-- A separator is in no piece of clutter. -/
def IsSeparator (c : Char) : Prop :=
  ∀ word ∈ clutter, c ∉ word

theorem IsSeparator.of_sep {sep : Char → Bool} (h : ∀ word ∈ clutter, ∀ d ∈ word, sep d = false)
    {c : Char} (hc : sep c = true) : IsSeparator c := by
  intro word hword hmem
  rw [h word hword c hmem] at hc
  cases hc

theorem isSeparator_of_isBlank {c : Char} (h : isBlank c = true) : IsSeparator c :=
  .of_sep (by decide) h

theorem isSeparator_of_isBracket {c : Char} (h : Flag.isBracket c = true) : IsSeparator c :=
  .of_sep (by decide) h

theorem IsSeparator.clean_append {c : Char} (h : IsSeparator c) (a b : Text) :
    clean (a ++ c :: b) = clean a ++ c :: clean b := by
  have hkeywords : ∀ word ∈ keywords, c ∉ word := by
    intro word hword
    exact h word (mem_clutter_iff.2 (.inl hword))
  have hsigns : c ∉ signs := by
    intro hc
    exact h [c] (mem_clutter_iff.2 (.inr ⟨c, hc, rfl⟩)) (.head _)
  exact clean_append_separator hkeywords hsigns a b

section Separators

variable {sep : Char → Bool}

theorem sep_of_mem_clean {text : Text} (h : ∀ c ∈ text, sep c = false) :
    ∀ c ∈ clean text, sep c = false :=
  fun c hc => h c ((clean_sublist text).subset hc)

theorem splitWhere_clean (hsep : ∀ c, sep c = true → IsSeparator c) (line : Text) :
    Text.splitWhere sep (clean line) = (Text.splitWhere sep line).map clean := by
  induction line using Text.separator_induction sep with
  | solid text h =>
    rw [Text.splitWhere_eq_singleton h, Text.splitWhere_eq_singleton (sep_of_mem_clean h)]
    rfl
  | separated front c rest h hc ih =>
    rw [(hsep c hc).clean_append, Text.splitWhere_append h hc,
      Text.splitWhere_append (sep_of_mem_clean h) hc, ih]
    rfl

/-- Cleaning a line cleans each of its tokens, of which the empty ones go. -/
theorem tokens_clean (hsep : ∀ c, sep c = true → IsSeparator c) (line : Text) :
    Text.tokens sep (clean line) =
      ((Text.tokens sep line).map clean).filter fun token => !token.isEmpty := by
  have hkept : ∀ piece : Text, (!(clean piece).isEmpty && !piece.isEmpty) =
      !(clean piece).isEmpty := by
    intro piece
    cases piece with
    | nil => rfl
    | cons c piece => exact Bool.and_true _
  rw [Text.tokens, Text.tokens, splitWhere_clean hsep, List.filter_map, List.filter_map,
    List.filter_filter]
  apply congrArg (List.map clean)
  exact List.filter_congr fun piece _ => (hkept piece).symm

theorem filter_clean (hsep : ∀ c, sep c = true → IsSeparator c) (line : Text) :
    (clean line).filter sep = line.filter sep := by
  have hsolid : ∀ {text : Text}, (∀ c ∈ text, sep c = false) → text.filter sep = [] := by
    intro text h
    exact List.filter_eq_nil_iff.2 fun c hc => by simp [h c hc]
  induction line using Text.separator_induction sep with
  | solid text h => rw [hsolid h, hsolid (sep_of_mem_clean h)]
  | separated front c rest h hc ih =>
    rw [(hsep c hc).clean_append, List.filter_append, List.filter_append,
      List.filter_cons_of_pos hc, List.filter_cons_of_pos hc, hsolid h,
      hsolid (sep_of_mem_clean h), ih]

end Separators

/-- Cleaning never reaches over a separator, so the words of a clean line are what is left of the
words of the line, and its brackets are those of the line. -/
theorem clean_apart :
    (∀ c, isBlank c = true ∨ c ∈ ("()|/=_" : Text) → IsSeparator c) ∧
    (∀ c, IsSeparator c → ∀ a b, clean (a ++ c :: b) = clean a ++ c :: clean b) ∧
    (∀ line, Text.words (clean line) =
      ((Text.words line).map clean).filter fun word => !word.isEmpty) ∧
    ∀ line, (clean line).filter Flag.isBracket = line.filter Flag.isBracket := by
  refine ⟨fun c hc => ?_, fun c hc => hc.clean_append, ?_, ?_⟩
  · rcases hc with hblank | hmem
    · exact isSeparator_of_isBlank hblank
    · have hmarks : ∀ d ∈ ("()|/=_" : Text), ∀ word ∈ clutter, d ∉ word := by decide
      exact hmarks c hmem
  · exact tokens_clean fun _ => isSeparator_of_isBlank
  · exact filter_clean fun _ => isSeparator_of_isBracket

theorem clean_apart_keywords :
    IsSeparator '_' ∧ clean "un1struct_classsigned" = "un_signed" ∧
      Text.words (clean "class 1unsigned: struct*FName ;") = [("FName" : Text)] ∧
      (clean "(cl1ass<)unsigned(").filter Flag.isBracket = "()(" := by
  obtain ⟨hseparators, happend, hwords, hbrackets⟩ := clean_apart
  have hseparator := hseparators '_' (.inr (by decide))
  have hclean := happend '_' hseparator "un1struct" "classsigned"
  have hfront : clean "un1struct" = "un" := by decide
  have hrest : clean "classsigned" = "signed" := by decide
  rw [hfront, hrest] at hclean
  refine ⟨hseparator, hclean, (hwords _).trans (by decide), (hbrackets _).trans (by decide)⟩

end Member

end UnrealDecl
