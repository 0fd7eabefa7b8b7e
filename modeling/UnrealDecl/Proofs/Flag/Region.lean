import UnrealDecl.Flag.Region
import UnrealDecl.Proofs.Member.Clean
import UnrealDecl.Proofs.Text.Words

namespace UnrealDecl

theorem Text.head?_splitWhere (sep : Char → Bool) (text : Text) :
    (splitWhere sep text).head? = some (text.takeWhile fun c => !sep c) := by
  induction text with
  | nil => rfl
  | cons c text ih =>
    cases hc : sep c with
    | true =>
      rw [splitWhere_cons_of_sep hc, List.takeWhile_cons_of_neg (by simp [hc])]
      rfl
    | false =>
      obtain ⟨first, pieces, hs⟩ := List.exists_cons_of_ne_nil (splitWhere_ne_nil sep text)
      rw [hs] at ih
      rw [splitWhere_cons_of_not_sep hc, hs, consFirst_cons,
        List.takeWhile_cons_of_pos (by simp [hc]), ← Option.some.inj ih]
      rfl

namespace Flag

/-- The flags stand after the third round bracket and before the next one. -/
theorem tokens_append {p₀ p₁ p₂ : Text} {d₁ d₂ d₃ : Char} (h₀ : ∀ c ∈ p₀, isBracket c = false)
    (h₁ : ∀ c ∈ p₁, isBracket c = false) (h₂ : ∀ c ∈ p₂, isBracket c = false)
    (hd₁ : isBracket d₁ = true) (hd₂ : isBracket d₂ = true) (hd₃ : isBracket d₃ = true)
    (rest : Text) :
    tokens (p₀ ++ d₁ :: (p₁ ++ d₂ :: (p₂ ++ d₃ :: rest))) =
      Text.tokens isSeparator (rest.takeWhile fun c => !isBracket c) := by
  have hregion := Text.head?_splitWhere isBracket rest
  obtain ⟨region, pieces, hs⟩ := List.exists_cons_of_ne_nil (Text.splitWhere_ne_nil isBracket rest)
  rw [hs] at hregion
  rw [tokens, Text.splitWhere_append h₀ hd₁, Text.splitWhere_append h₁ hd₂,
    Text.splitWhere_append h₂ hd₃, hs, ← Option.some.inj hregion]
  rfl

/-- What a flag list can hold. -/
structure IsFlag (token : Text) : Prop where
  nonempty : token ≠ []
  solid : ∀ c ∈ token, isSeparator c = false
  plain : ∀ c ∈ token, isBracket c = false

/-- The flags as headers print them, one after the other. -/
def row (flags : List Text) : Text :=
  ' ' :: (Text.join " | " flags ++ [' '])

theorem tokens_row {flags : List Text} (h : ∀ flag ∈ flags, IsFlag flag) :
    Text.tokens isSeparator (row flags) = flags := by
  have hblank : isSeparator ' ' = true := by decide
  rw [row, Text.tokens_cons_of_sep hblank]
  induction flags with
  | nil => exact Text.tokens_cons_of_sep hblank []
  | cons flag flags ih =>
    obtain ⟨nonempty, solid, -⟩ := h flag (.head _)
    cases flags with
    | nil => exact Text.tokens_token nonempty solid hblank []
    | cons next flags =>
      have hrow : Text.join " | " (flag :: next :: flags) ++ [' '] =
          flag ++ " | " ++ (Text.join " | " (next :: flags) ++ [' ']) := by
        simp [Text.join]
      rw [hrow, Text.tokens_token_append nonempty solid (by decide) (.inl (by decide)),
        ih fun f hf => h f (.tail _ hf)]

theorem mem_of_mem_row {flags : List Text} {c : Char} (h : c ∈ row flags) :
    c ∈ [' ', '|'] ∨ ∃ flag ∈ flags, c ∈ flag := by
  have hglue : (" | " : Text) ⊆ [' ', '|'] := by decide
  rcases List.mem_cons.1 h with rfl | h
  · exact .inl (.head _)
  · rcases List.mem_append.1 h with h | h
    · exact (Text.mem_of_mem_join h).imp_left fun hc => hglue hc
    · exact .inl (List.mem_singleton.1 h ▸ .head _)

theorem isBracket_row {flags : List Text} (h : ∀ flag ∈ flags, IsFlag flag) :
    ∀ c ∈ row flags, isBracket c = false := by
  intro c hc
  have hgap : ∀ c ∈ [' ', '|'], isBracket c = false := by decide
  rcases mem_of_mem_row hc with hc | ⟨flag, hf, hc⟩
  · exact hgap c hc
  · exact (h flag hf).plain c hc

theorem clean_row {flags : List Text} (h : ∀ flag ∈ flags, Member.clean flag = flag) :
    Member.clean (row flags) = row flags := by
  rw [row, Member.clean_cons (by decide), if_neg (by decide)]
  induction flags with
  | nil => decide
  | cons flag flags ih =>
    have hflag := h flag (.head _)
    cases flags with
    | nil =>
      have hone : Text.join " | " [flag] ++ [' '] = flag ++ ' ' :: [] := rfl
      rw [hone, Member.clean_append_cons (by decide), hflag]
      rfl
    | cons next flags =>
      have hrow : Text.join " | " (flag :: next :: flags) ++ [' '] =
          flag ++ ' ' :: '|' :: ' ' :: (Text.join " | " (next :: flags) ++ [' ']) := by
        simp [Text.join]
      have hrest := List.cons.inj (ih fun f hf => h f (.tail _ hf))
      rw [hrow, Member.clean_append_cons (by decide), hflag, Member.clean_cons (by decide),
        Member.clean_cons (by decide), Member.clean_cons (by decide), hrest.2,
        if_neg (by decide), if_neg (by decide), if_neg (by decide)]

theorem isBracket_of_isSeparator {c : Char} (h : isSeparator c = true) : isBracket c = false := by
  apply Bool.eq_false_iff.2
  intro hc
  rw [isBracket, Bool.or_eq_true, beq_iff_eq, beq_iff_eq] at hc
  rcases hc with rfl | rfl
  · exact absurd h (by decide)
  · exact absurd h (by decide)

/-- Flags in any layout: each is followed by separators, which may be missing behind the last. -/
structure Listing where
  margin : Text
  items : List (Text × Text)
  margin_blank : ∀ c ∈ margin, isSeparator c = true
  isFlag : ∀ item ∈ items, IsFlag item.1
  gap_blank : ∀ item ∈ items, ∀ c ∈ item.2, isSeparator c = true
  apart : ∀ item ∈ items.dropLast, item.2 ≠ []

namespace Listing

def flags (l : Listing) : List Text :=
  l.items.map Prod.fst

def text (l : Listing) : Text :=
  l.margin ++ l.items.flatMap fun item => item.1 ++ item.2

theorem tokens_items {items : List (Text × Text)} (hflag : ∀ item ∈ items, IsFlag item.1)
    (hgap : ∀ item ∈ items, ∀ c ∈ item.2, isSeparator c = true)
    (hapart : ∀ item ∈ items.dropLast, item.2 ≠ []) :
    Text.tokens isSeparator (items.flatMap fun item => item.1 ++ item.2) =
      items.map Prod.fst := by
  induction items with
  | nil => rfl
  | cons item items ih =>
    have hlast : item.2 ≠ [] ∨ (items.flatMap fun item => item.1 ++ item.2) = [] := by
      cases items with
      | nil => exact .inr rfl
      | cons next items => exact .inl (hapart item (.head _))
    have hlater : ∀ next ∈ items.dropLast, next.2 ≠ [] := by
      intro next hnext
      cases items with
      | nil => cases hnext
      | cons second items => exact hapart next (.tail _ hnext)
    obtain ⟨nonempty, solid, -⟩ := hflag item (.head _)
    rw [List.flatMap_cons, List.map_cons,
      Text.tokens_token_append nonempty solid (hgap item (.head _)) hlast,
      ih (fun i hi => hflag i (.tail _ hi)) (fun i hi => hgap i (.tail _ hi)) hlater]

theorem tokens_text (l : Listing) : Text.tokens isSeparator l.text = l.flags := by
  rw [text, Text.tokens_append_of_sep l.margin_blank, tokens_items l.isFlag l.gap_blank l.apart]
  rfl

theorem isBracket_text (l : Listing) : ∀ c ∈ l.text, isBracket c = false := by
  intro c hc
  rcases List.mem_append.1 hc with hc | hc
  · exact isBracket_of_isSeparator (l.margin_blank c hc)
  · obtain ⟨item, hitem, hc⟩ := List.mem_flatMap.1 hc
    rcases List.mem_append.1 hc with hc | hc
    · exact (l.isFlag item hitem).plain c hc
    · exact isBracket_of_isSeparator (l.gap_blank item hitem c hc)

theorem takeWhile_text_append (l : Listing) {tail : Text}
    (htail : ∀ c, tail.head? = some c → isBracket c = true) :
    (l.text ++ tail).takeWhile (fun c => !isBracket c) = l.text := by
  have hstop : tail.takeWhile (fun c => !isBracket c) = [] := by
    cases tail with
    | nil => rfl
    | cons c tail => exact List.takeWhile_cons_of_neg (by simp [htail c rfl])
  rw [List.takeWhile_append_of_pos fun c hc => by simp [l.isBracket_text c hc], hstop,
    List.append_nil]

end Listing

theorem tokens_eq_nil {line : Text} (h : line.countP isBracket < 3) : tokens line = [] := by
  have hlength := Text.length_splitWhere isBracket line
  have hnone : (Text.splitWhere isBracket line)[3]? = none := List.getElem?_eq_none (by omega)
  rw [tokens, hnone]

/-- The flags of a line are found however they are laid out between its third round bracket and the
next one or its end, and whatever stands in front; a line with fewer brackets has none. -/
theorem tokens_region :
    (∀ (l : Listing) (p₀ p₁ p₂ tail : Text) (d₁ d₂ d₃ : Char),
      (∀ p ∈ [p₀, p₁, p₂], ∀ c ∈ p, isBracket c = false) →
      (∀ d ∈ [d₁, d₂, d₃], isBracket d = true) →
      (∀ c, tail.head? = some c → isBracket c = true) →
      tokens (p₀ ++ d₁ :: (p₁ ++ d₂ :: (p₂ ++ d₃ :: (l.text ++ tail)))) = l.flags) ∧
    ∀ line : Text, line.countP isBracket < 3 → tokens line = [] := by
  constructor
  · intro l p₀ p₁ p₂ tail d₁ d₂ d₃ hp hd htail
    simp only [List.forall_mem_cons] at hp hd
    obtain ⟨h₀, h₁, h₂, -⟩ := hp
    obtain ⟨hd₁, hd₂, hd₃, -⟩ := hd
    rw [tokens_append h₀ h₁ h₂ hd₁ hd₂ hd₃, l.takeWhile_text_append htail, l.tokens_text]
  · intro line hline
    exact tokens_eq_nil hline

def unevenListing : Listing where
  margin := "\t||"
  items := [("CPF_Config", "|"), ("CPF_Const", " \u3000|\n"), ("CPF_Transient", "")]
  margin_blank := by decide
  isFlag := by
    have hconfig : IsFlag "CPF_Config" := ⟨by decide, by decide, by decide⟩
    have hconst : IsFlag "CPF_Const" := ⟨by decide, by decide, by decide⟩
    have htransient : IsFlag "CPF_Transient" := ⟨by decide, by decide, by decide⟩
    exact List.forall_mem_cons.2 ⟨hconfig, List.forall_mem_cons.2 ⟨hconst,
      List.forall_mem_singleton.2 htransient⟩⟩
  gap_blank := by decide
  apart := by decide

theorem tokens_region_uneven :
    unevenListing.text = "\t||CPF_Config|CPF_Const \u3000|\nCPF_Transient" ∧
      tokens ("int   Health   // 0x40 " ++ '(' :: ("0x4" ++ ')' :: (" [0x3] " ++
        ')' :: (unevenListing.text ++ "(CPF_Native)")))) =
          ["CPF_Config", "CPF_Const", "CPF_Transient"] ∧
      tokens "int   Health   // 0x40 (0x4) CPF_Config" = [] := by
  obtain ⟨hregion, hfew⟩ := tokens_region
  refine ⟨by decide, ?_, hfew _ (by decide)⟩
  refine hregion unevenListing _ _ _ _ _ _ _ (by decide) (by decide) fun c hc => ?_
  obtain rfl : '(' = c := by simpa using hc
  decide

end Flag

end UnrealDecl
