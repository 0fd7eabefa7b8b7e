import UnrealDecl.Proofs.Text.Pieces
import UnrealDecl.Text.Lines

namespace UnrealDecl.Text

section Tokens

variable {sep : Char → Bool}

/-- No token reaches over a separator. -/
theorem tokens_append_cons {c : Char} (hc : sep c = true) (text rest : Text) :
    tokens sep (text ++ c :: rest) = tokens sep text ++ tokens sep rest := by
  rw [tokens, splitWhere_append_cons hc, List.filter_append]
  rfl

theorem tokens_cons_of_sep {c : Char} (h : sep c = true) (rest : Text) :
    tokens sep (c :: rest) = tokens sep rest :=
  tokens_append_cons h [] rest

theorem tokens_append_of_sep {gap : Text} (h : ∀ c ∈ gap, sep c = true) (rest : Text) :
    tokens sep (gap ++ rest) = tokens sep rest := by
  induction gap with
  | nil => rfl
  | cons c gap ih =>
    rw [List.cons_append, tokens_cons_of_sep (h c (.head _)), ih fun d hd => h d (.tail _ hd)]

theorem tokens_eq_singleton {token : Text} (hne : token ≠ []) (h : ∀ d ∈ token, sep d = false) :
    tokens sep token = [token] := by
  rw [tokens, splitWhere_eq_singleton h,
    List.filter_cons_of_pos (by simpa using List.isEmpty_eq_false_iff.2 hne)]
  rfl

theorem tokens_token {token : Text} {c : Char} (hne : token ≠ [])
    (h : ∀ d ∈ token, sep d = false) (hc : sep c = true) (rest : Text) :
    tokens sep (token ++ c :: rest) = token :: tokens sep rest := by
  rw [tokens_append_cons hc, tokens_eq_singleton hne h, List.singleton_append]

theorem tokens_token_append {token gap rest : Text} (hne : token ≠ [])
    (h : ∀ d ∈ token, sep d = false) (hgap : ∀ d ∈ gap, sep d = true)
    (hapart : gap ≠ [] ∨ rest = []) :
    tokens sep (token ++ gap ++ rest) = token :: tokens sep rest := by
  cases gap with
  | nil =>
    obtain rfl := hapart.resolve_left fun hgap => hgap rfl
    rw [List.append_nil, List.append_nil]
    exact tokens_eq_singleton hne h
  | cons c gap =>
    rw [List.append_assoc, List.cons_append, tokens_token hne h (hgap c (.head _)),
      tokens_append_of_sep fun d hd => hgap d (.tail _ hd)]

theorem mem_tokens {text token : Text} (h : token ∈ tokens sep text) :
    token ≠ [] ∧ (∀ c ∈ token, sep c = false) ∧ token.Sublist text := by
  obtain ⟨hm, hne⟩ := List.mem_filter.1 h
  exact ⟨by simpa using hne, sep_of_mem_splitWhere hm, sublist_of_mem_splitWhere hm⟩

end Tokens

theorem join_cons (glue piece : Text) (pieces : List Text) :
    join glue (piece :: pieces) = piece ++ pieces.flatMap fun p => glue ++ p := by
  induction pieces generalizing piece with
  | nil => exact (List.append_nil piece).symm
  | cons next pieces ih =>
    have hjoin : join glue (piece :: next :: pieces) =
        piece ++ glue ++ join glue (next :: pieces) := rfl
    rw [hjoin, ih, List.flatMap_cons, List.append_assoc, List.append_assoc]

theorem join_append {glue : Text} {ps qs : List Text} (hp : ps ≠ []) (hq : qs ≠ []) :
    join glue (ps ++ qs) = join glue ps ++ glue ++ join glue qs := by
  induction ps with
  | nil => exact absurd rfl hp
  | cons p ps ih =>
    cases ps with
    | nil =>
      obtain ⟨q, qs, rfl⟩ := List.exists_cons_of_ne_nil hq
      rfl
    | cons p' ps =>
      have hrest := ih (List.cons_ne_nil p' ps)
      rw [List.cons_append] at hrest
      simp only [List.cons_append, join, hrest, List.append_assoc]

theorem splitWhere_join {c : Char} {ps : List Text} (hne : ps ≠ []) (h : ∀ p ∈ ps, c ∉ p) :
    splitWhere (· == c) (join [c] ps) = ps := by
  have hpiece : ∀ p ∈ ps, ∀ d ∈ p, (d == c) = false := by
    intro p hp d hd
    exact beq_eq_false_iff_ne.2 fun he => h p hp (he ▸ hd)
  induction ps with
  | nil => exact absurd rfl hne
  | cons p ps ih =>
    cases ps with
    | nil => exact splitWhere_eq_singleton (hpiece p (.head _))
    | cons q ps =>
      have hrest := ih (List.cons_ne_nil q ps) (fun r hr => h r (.tail _ hr))
        fun r hr => hpiece r (.tail _ hr)
      have hjoin : join [c] (p :: q :: ps) = p ++ c :: join [c] (q :: ps) := by simp [join]
      rw [hjoin, splitWhere_append (hpiece p (.head _)) (beq_self_eq_true c), hrest]

theorem mem_of_mem_join {c : Char} {glue : Text} {pieces : List Text} (h : c ∈ join glue pieces) :
    c ∈ glue ∨ ∃ piece ∈ pieces, c ∈ piece := by
  induction pieces with
  | nil => exact absurd h List.not_mem_nil
  | cons piece pieces ih =>
    cases pieces with
    | nil => exact .inr ⟨piece, .head _, h⟩
    | cons next pieces =>
      rcases List.mem_append.1 h with h | h
      · rcases List.mem_append.1 h with h | h
        · exact .inr ⟨piece, .head _, h⟩
        · exact .inl h
      · rcases ih h with h | ⟨q, hq, h⟩
        · exact .inl h
        · exact .inr ⟨q, .tail _ hq, h⟩

theorem mem_of_mem_trim {c : Char} {text : Text} (h : c ∈ trim text) : c ∈ text := by
  obtain ⟨left, right, he, -, -⟩ := exists_trim text
  rw [he]
  exact List.mem_append_left _ (List.mem_append_right _ h)

theorem trimStart_cons {c : Char} (hc : isBlank c = false) (text : Text) :
    trimStart (c :: text) = c :: text := by
  rw [trimStart, List.dropWhile_cons_of_neg (by simp [hc])]

theorem trimEnd_append_cons {c : Char} {blank : Text} (hc : isBlank c = false)
    (hb : ∀ d ∈ blank, isBlank d = true) (text : Text) :
    trimEnd (text ++ c :: blank) = text ++ [c] := by
  have hr : (text ++ c :: blank).reverse = blank.reverse ++ c :: text.reverse := by simp
  rw [trimEnd, hr, List.dropWhile_append_of_pos fun d hd => hb d (List.mem_reverse.1 hd),
    List.dropWhile_cons_of_neg (by simp [hc])]
  simp

theorem trimEnd_cons {c : Char} (hc : isBlank c = false) (text : Text) :
    trimEnd (c :: text) = c :: trimEnd text := by
  rw [trimEnd, trimEnd, List.reverse_cons, List.dropWhile_append]
  split
  · rename_i he
    rw [List.dropWhile_cons_of_neg (by simp [hc]), List.isEmpty_iff.1 he]
    rfl
  · simp

theorem trim_cons {c : Char} {blank : Text} (hb : ∀ d ∈ blank, isBlank d = true)
    (hc : isBlank c = false) (text : Text) : trim (blank ++ c :: text) = c :: trimEnd text := by
  rw [trim, trimStart_append hb, trimStart_cons hc, trimEnd_cons hc]

theorem trim_append {text blank : Text} (hb : ∀ d ∈ blank, isBlank d = true)
    (hhead : ∀ c, text.head? = some c → isBlank c = false)
    (hlast : ∀ c, text.getLast? = some c → isBlank c = false) :
    trim (text ++ blank) = text := by
  cases text with
  | nil => exact trim_of_blank hb
  | cons c text =>
    obtain ⟨init, d, hd⟩ := (List.eq_nil_or_concat' (c :: text)).resolve_left (List.cons_ne_nil _ _)
    have hend : isBlank d = false := hlast d (by rw [hd, List.getLast?_concat])
    rw [trim, List.cons_append, trimStart_cons (hhead c rfl), ← List.cons_append, hd,
      List.append_assoc, List.singleton_append, trimEnd_append_cons hend hb]

theorem trim_eq_self {text : Text} (hhead : ∀ c, text.head? = some c → isBlank c = false)
    (hlast : ∀ c, text.getLast? = some c → isBlank c = false) : trim text = text := by
  have hblank : ∀ d ∈ ([] : Text), isBlank d = true := by simp
  have h := trim_append hblank hhead hlast
  rwa [List.append_nil] at h

theorem getLast?_trim {c : Char} {blank : Text} (hc : isBlank c = false)
    (hb : ∀ d ∈ blank, isBlank d = true) (text : Text) :
    (trim (text ++ c :: blank)).getLast? = some c := by
  have hs : ∃ front, trimStart (text ++ c :: blank) = front ++ c :: blank := by
    induction text with
    | nil => exact ⟨[], trimStart_cons hc blank⟩
    | cons d text ih =>
      cases hd : isBlank d with
      | true =>
        rw [List.cons_append, trimStart, List.dropWhile_cons_of_pos hd]
        exact ih
      | false => exact ⟨d :: text, trimStart_cons hd _⟩
  obtain ⟨front, hfront⟩ := hs
  rw [trim, hfront, trimEnd_append_cons hc hb, List.getLast?_concat]

/-- No white space stands at either end of a text. -/
structure IsTrimmed (text : Text) : Prop where
  head : ∀ c, text.head? = some c → isBlank c = false
  last : ∀ c, text.getLast? = some c → isBlank c = false

theorem IsTrimmed.of_solid {text : Text} (h : ∀ c ∈ text, isBlank c = false) : IsTrimmed text :=
  ⟨fun c hc => h c (List.mem_of_head? hc), fun c hc => h c (List.mem_of_getLast? hc)⟩

theorem isTrimmed_trim (text : Text) : IsTrimmed (trim text) := by
  have hdrop : ∀ (t : Text) c, (t.dropWhile isBlank).head? = some c → isBlank c = false := by
    intro t c hc
    have hall := List.head?_dropWhile_not isBlank t
    rw [hc] at hall
    simpa using hall
  constructor
  · intro c hc
    rw [trim] at hc
    cases hs : trimStart text with
    | nil =>
      rw [hs] at hc
      cases hc
    | cons d rest =>
      have hd : isBlank d = false := hdrop text d (by rw [← trimStart, hs]; rfl)
      rw [hs, trimEnd_cons hd] at hc
      cases hc
      exact hd
  · intro c hc
    rw [trim, trimEnd, List.getLast?_reverse] at hc
    exact hdrop _ c hc

theorem trim_append_blank {blank : Text} (hb : ∀ d ∈ blank, isBlank d = true) (text : Text) :
    trim (text ++ blank) = trim text := by
  obtain ⟨left, right, hsplit, hleft, hright⟩ := exists_trim text
  have hend : ∀ d ∈ right ++ blank, isBlank d = true := fun d hd =>
    (List.mem_append.1 hd).elim (hright d) (hb d)
  have hskip : ∀ rest, trim (left ++ rest) = trim rest := fun rest => by
    rw [trim, trimStart_append hleft, ← trim]
  have htrimmed := isTrimmed_trim text
  calc trim (text ++ blank)
      = trim (left ++ (trim text ++ (right ++ blank))) := by
        conv_lhs => rw [hsplit]
        simp only [List.append_assoc]
    _ = trim text := by rw [hskip, trim_append hend htrimmed.head htrimmed.last]

theorem closeLine_reverse {line : Text} (h : '\r' ∉ line) : closeLine line.reverse = line := by
  rw [closeLine.eq_def]
  split
  · rename_i rest hrest
    exact absurd (List.mem_reverse.1 (hrest ▸ .head _)) h
  · exact List.reverse_reverse line

theorem closeLine_eq_reverse {line : Text} (h : '\r' ∉ line) : closeLine line = line.reverse := by
  have hline : '\r' ∉ line.reverse := mt List.mem_reverse.1 h
  rw [← closeLine_reverse hline, List.reverse_reverse]

theorem mem_unlines_iff {c : Char} {ls : List Text} (hc : c ≠ '\n') :
    c ∈ unlines ls ↔ ∃ line ∈ ls, c ∈ line := by
  simp [unlines, hc]

theorem not_mem_unlines {c : Char} {ls : List Text} (hc : c ≠ '\n') (h : ∀ line ∈ ls, c ∉ line) :
    c ∉ unlines ls := by
  rw [mem_unlines_iff hc]
  rintro ⟨line, hl, hm⟩
  exact h line hl hm

theorem lines_unlines {ls : List Text} (hn : ∀ line ∈ ls, '\n' ∉ line)
    (hr : ∀ line ∈ ls, '\r' ∉ line) : lines (unlines ls) = ls := by
  induction ls with
  | nil => rfl
  | cons line ls ih =>
    rw [unlines_cons, lines, linesFrom_append (hn line (.head _)), List.append_nil,
      closeLine_reverse (hr line (.head _)),
      ih (fun l hl => hn l (.tail _ hl)) fun l hl => hr l (.tail _ hl)]

theorem linesFrom_append_feed (acc text rest : Text) :
    linesFrom acc (text ++ '\n' :: rest) = linesFrom acc (text ++ ['\n']) ++ lines rest := by
  induction text generalizing acc with
  | nil =>
    rw [List.nil_append, List.nil_append, linesFrom, linesFrom, if_pos rfl, if_pos rfl]
    rfl
  | cons c text ih =>
    rw [List.cons_append, List.cons_append, linesFrom, linesFrom]
    by_cases hc : c = '\n'
    · rw [if_pos hc, if_pos hc, ih, List.cons_append]
    · rw [if_neg hc, if_neg hc, ih]

/-- The lines of two texts are those of both together, if the first ends with a whole line. -/
theorem lines_append {text : Text} (h : text = [] ∨ text.getLast? = some '\n') (rest : Text) :
    lines (text ++ rest) = lines text ++ lines rest := by
  rcases h with rfl | h
  · rfl
  · obtain ⟨front, rfl⟩ := List.getLast?_eq_some_iff.1 h
    rw [List.append_assoc, List.singleton_append, lines, linesFrom_append_feed]
    rfl

theorem append_cons_inj {c : Char} {a b rest more : Text} (ha : c ∉ a) (hb : c ∉ b)
    (h : a ++ c :: rest = b ++ c :: more) : a = b ∧ rest = more := by
  have hleft := cut_append ha [] rest
  have hright := cut_append hb [] more
  rw [List.nil_append] at hleft hright
  rw [h, hright] at hleft
  cases hleft
  exact ⟨rfl, rfl⟩

theorem unlines_inj {ls more : List Text} (hl : ∀ line ∈ ls, '\n' ∉ line)
    (hm : ∀ line ∈ more, '\n' ∉ line) (h : unlines ls = unlines more) : ls = more := by
  induction ls generalizing more with
  | nil =>
    cases more with
    | nil => rfl
    | cons row more => simp at h
  | cons line ls ih =>
    cases more with
    | nil => simp at h
    | cons row more =>
      rw [unlines_cons, unlines_cons] at h
      obtain ⟨rfl, hrest⟩ := append_cons_inj (hl line (.head _)) (hm row (.head _)) h
      rw [ih (fun l hl' => hl l (.tail _ hl')) (fun l hl' => hm l (.tail _ hl')) hrest]

theorem unlines_append (ls more : List Text) : unlines (ls ++ more) = unlines ls ++ unlines more :=
  List.flatMap_append

theorem mem_of_mem_closeLine {c : Char} {line : Text} (h : c ∈ closeLine line) : c ∈ line := by
  rw [closeLine.eq_def] at h
  split at h
  · exact .tail _ (List.mem_reverse.1 h)
  · exact List.mem_reverse.1 h

theorem feed_not_mem_linesFrom {acc text line : Text} (ha : '\n' ∉ acc)
    (h : line ∈ linesFrom acc text) : '\n' ∉ line := by
  induction text generalizing acc with
  | nil =>
    rw [linesFrom] at h
    split at h
    · exact absurd h List.not_mem_nil
    · obtain rfl := List.mem_singleton.1 h
      rwa [List.mem_reverse]
  | cons c text ih =>
    rw [linesFrom] at h
    split at h
    · rcases List.mem_cons.1 h with rfl | h
      · exact fun hm => ha (mem_of_mem_closeLine hm)
      · exact ih List.not_mem_nil h
    · rename_i hc
      refine ih ?_ h
      intro hm
      rcases List.mem_cons.1 hm with hm | hm
      · exact hc hm.symm
      · exact ha hm

theorem feed_not_mem_of_mem_lines {text line : Text} (h : line ∈ lines text) : '\n' ∉ line :=
  feed_not_mem_linesFrom List.not_mem_nil h

end UnrealDecl.Text
