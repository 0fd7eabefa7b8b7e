import UnrealDecl.Member.Columns
import UnrealDecl.Proofs.Text.Words

namespace UnrealDecl.Member

/-- A text that stands in one column has no wide gap and does not end with a space. -/
structure IsColumn (text : Text) : Prop where
  narrow : ¬ List.replicate gapWidth ' ' <:+: text
  ends : ∃ front c, text = front ++ [c] ∧ c ≠ ' '

theorem IsColumn.nonempty {text : Text} (h : IsColumn text) : text.isEmpty = false := by
  obtain ⟨front, c, rfl, -⟩ := h.ends
  simp

theorem narrow_of_count {text : Text} (h : text.count ' ' < gapWidth) :
    ¬ List.replicate gapWidth ' ' <:+: text := by
  intro hi
  have hc := hi.sublist.count_le ' '
  rw [List.count_replicate_self] at hc
  omega

theorem IsColumn.of_solid {text : Text} (hne : text ≠ [])
    (h : ∀ c ∈ text, isBlank c = false) : IsColumn text := by
  have hspace : ∀ c ∈ text, c ≠ ' ' := by
    rintro c hc rfl
    exact absurd (h ' ' hc) (by decide)
  have hcount : text.count ' ' = 0 := List.count_eq_zero.2 fun hm => hspace ' ' hm rfl
  obtain ⟨front, c, htext⟩ := (List.eq_nil_or_concat' text).resolve_left hne
  exact ⟨narrow_of_count (by rw [hcount]; decide), front, c, htext, hspace c (by simp [htext])⟩

theorem columnsFrom_replicate (column : Text) (gap n : Nat) (rest : Text) :
    columnsFrom column gap (List.replicate n ' ' ++ rest) = columnsFrom column (gap + n) rest := by
  induction n generalizing gap with
  | zero => rfl
  | succ n ih =>
    rw [List.replicate_succ, List.cons_append, columnsFrom_space, ih, Nat.add_right_comm,
      Nat.add_assoc]

theorem gap_lt_of_narrow {gap : Nat} {text : Text}
    (h : ¬ List.replicate gapWidth ' ' <:+: List.replicate gap ' ' ++ text) : gap < gapWidth := by
  apply Nat.lt_of_not_le
  intro hle
  obtain ⟨more, rfl⟩ := Nat.exists_eq_add_of_le hle
  apply h
  rw [← List.replicate_append_replicate, List.append_assoc]
  exact (List.prefix_append _ _).isInfix

theorem columnsFrom_append {front : Text} {c : Char} {gap : Nat} (hc : c ≠ ' ')
    (h : ¬ List.replicate gapWidth ' ' <:+: List.replicate gap ' ' ++ (front ++ [c]))
    (column rest : Text) :
    columnsFrom column gap (front ++ c :: rest) =
      columnsFrom (c :: (front.reverse ++ (List.replicate gap ' ' ++ column))) 0 rest := by
  induction front generalizing gap column with
  | nil => exact columnsFrom_narrow (gap_lt_of_narrow h) hc column rest
  | cons d front ih =>
    by_cases hd : d = ' '
    · subst hd
      have hr : List.replicate gap ' ' ++ (' ' :: (front ++ [c])) =
          List.replicate (gap + 1) ' ' ++ (front ++ [c]) := by
        rw [List.replicate_succ', List.append_assoc]
        rfl
      rw [List.cons_append, hr] at h
      rw [List.cons_append, columnsFrom_space, ih h, List.replicate_succ]
      simp
    · have hfront : ¬ List.replicate gapWidth ' ' <:+: List.replicate 0 ' ' ++ (front ++ [c]) := by
        intro hi
        apply h
        exact hi.trans ((List.suffix_cons d _).trans (List.suffix_append _ _)).isInfix
      rw [List.cons_append, columnsFrom_narrow (gap_lt_of_narrow h) hd, ih hfront]
      simp

theorem IsColumn.columnsFrom_append {text : Text} (h : IsColumn text) (rest : Text) :
    columnsFrom [] 0 (text ++ rest) = columnsFrom text.reverse 0 rest := by
  obtain ⟨narrow, front, c, rfl, hc⟩ := h
  have hnarrow : ¬ List.replicate gapWidth ' ' <:+: List.replicate 0 ' ' ++ (front ++ [c]) := narrow
  have hstep := Member.columnsFrom_append hc hnarrow [] rest
  rw [List.append_assoc, List.singleton_append, hstep]
  simp

theorem columnsFrom_of_wide {gap : Nat} (hg : gapWidth ≤ gap) (column rest : Text) :
    ∃ later, columnsFrom column gap rest = column.reverse :: later := by
  induction rest generalizing gap with
  | nil => exact ⟨[], by rw [columnsFrom, if_pos hg]⟩
  | cons c rest ih =>
    by_cases hc : c = ' '
    · subst hc
      rw [columnsFrom_space]
      exact ih (Nat.le_succ_of_le hg)
    · exact ⟨_, columnsFrom_wide hg hc column rest⟩

theorem columnsFrom_single {c : Char} (hc : c ≠ ' ') (rest : Text) :
    columnsFrom [c] 0 rest = columnsFrom [] 0 (c :: rest) := by
  rw [columnsFrom_narrow (by decide) hc]
  rfl

variable {first second : Text} {n m : Nat}

/-- A wide gap separates two columns. -/
theorem columns_append (h : IsColumn first) (hn : gapWidth ≤ n) {c : Char} (hc : c ≠ ' ')
    (rest : Text) :
    columns (first ++ (List.replicate n ' ' ++ c :: rest)) = first :: columns (c :: rest) := by
  rw [columns, h.columnsFrom_append, columnsFrom_replicate, columnsFrom_wide (by omega) hc,
    columnsFrom_single hc, List.reverse_reverse]
  rfl

theorem IsColumn.columns_wide (h : IsColumn second) (hm : gapWidth ≤ m) (rest : Text) :
    ∃ later, columns (second ++ (List.replicate m ' ' ++ rest)) = second :: later := by
  rw [columns, h.columnsFrom_append, columnsFrom_replicate]
  obtain ⟨later, hl⟩ := columnsFrom_of_wide (Nat.le_trans hm (Nat.le_add_left m 0))
    second.reverse rest
  exact ⟨later, by rw [hl, List.reverse_reverse]⟩

theorem IsColumn.columns_narrow (h : IsColumn second) (hm : m < gapWidth) :
    columns (second ++ List.replicate m ' ') = [second ++ List.replicate m ' '] := by
  have hlast := columnsFrom_replicate second.reverse 0 m []
  rw [List.append_nil, Nat.zero_add] at hlast
  rw [columns, h.columnsFrom_append, hlast, columnsFrom, if_neg (Nat.not_le.2 hm)]
  simp

/-- The name is the second column; less than a wide gap after it only pads the end of the line. -/
theorem name?_eq (h₁ : IsColumn first) (h₂ : IsColumn second) (hn : gapWidth ≤ n)
    (hhead : ∀ c, second.head? = some c → isBlank c = false)
    (hlast : ∀ c, second.getLast? = some c → isBlank c = false) {rest : Text}
    (hm : gapWidth ≤ m ∨ rest = []) :
    name? (first ++ (List.replicate n ' ' ++ (second ++ (List.replicate m ' ' ++ rest)))) =
      some second := by
  have htrim : ∀ k, Text.trim (second ++ List.replicate k ' ') = second := by
    intro k
    have hb : ∀ d ∈ List.replicate k ' ', isBlank d = true := by
      intro d hd
      rw [List.eq_of_mem_replicate hd]
      decide
    exact Text.trim_append hb hhead hlast
  have hcols : ∃ k later, columns (second ++ (List.replicate m ' ' ++ rest)) =
      (second ++ List.replicate k ' ') :: later := by
    rcases Nat.lt_or_ge m gapWidth with hlt | hge
    · obtain rfl := hm.resolve_left (Nat.not_le.2 hlt)
      exact ⟨m, [], by rw [List.append_nil, h₂.columns_narrow hlt]⟩
    · obtain ⟨later, hl⟩ := h₂.columns_wide hge rest
      exact ⟨0, later, by rw [hl, List.replicate_zero, List.append_nil]⟩
  obtain ⟨k, later, hl⟩ := hcols
  obtain ⟨c, tail, hsecond⟩ := List.exists_cons_of_ne_nil
    (List.isEmpty_eq_false_iff.1 h₂.nonempty)
  have hc : c ≠ ' ' := by
    rintro rfl
    exact absurd (hhead ' ' (by rw [hsecond]; rfl)) (by decide)
  have hall : columns
      (first ++ (List.replicate n ' ' ++ (second ++ (List.replicate m ' ' ++ rest)))) =
        first :: (second ++ List.replicate k ' ') :: later := by
    rw [← hl, hsecond]
    exact columns_append h₁ hn hc _
  have hne : (second ++ List.replicate k ' ').isEmpty = false := by simp [hsecond]
  simp only [name?, hall, List.filter_cons, h₁.nonempty, hne, Bool.not_false, if_true,
    List.getElem?_cons_succ, List.getElem?_cons_zero, htrim, h₂.nonempty, Bool.false_eq_true,
    if_false]

theorem exists_columnsFrom (column : Text) (gap : Nat) (rest : Text) :
    ∃ tail later, columnsFrom column gap rest = (column.reverse ++ tail) :: later := by
  induction rest generalizing column gap with
  | nil =>
    rcases Nat.lt_or_ge gap gapWidth with hlt | hge
    · refine ⟨List.replicate gap ' ', [], ?_⟩
      rw [columnsFrom, if_neg (Nat.not_le.2 hlt), List.reverse_append, List.reverse_replicate]
    · exact ⟨[], [], by rw [columnsFrom, if_pos hge, List.append_nil]⟩
  | cons c rest ih =>
    by_cases hc : c = ' '
    · subst hc
      rw [columnsFrom_space]
      exact ih column (gap + 1)
    · rcases Nat.lt_or_ge gap gapWidth with hlt | hge
      · obtain ⟨tail, later, h⟩ := ih (c :: (List.replicate gap ' ' ++ column)) 0
        refine ⟨List.replicate gap ' ' ++ c :: tail, later, ?_⟩
        rw [columnsFrom_narrow hlt hc, h]
        simp
      · exact ⟨[], _, by rw [columnsFrom_wide hge hc, List.append_nil]⟩

/-- Behind the first column, white space other than spaces is part of the second, and is trimmed
off the name. -/
theorem exists_name? (h : IsColumn first) (hn : gapWidth ≤ n) {blank : Text} {c : Char}
    (hb : ∀ d ∈ blank, isBlank d = true) (hs : ' ' ∉ blank) (hc : isBlank c = false)
    (rest : Text) :
    ∃ tail, name? (first ++ (List.replicate n ' ' ++ (blank ++ c :: rest))) = some (c :: tail) := by
  have hspace : ∀ d ∈ blank ++ [c], d ≠ ' ' := by
    rintro d hd rfl
    rcases List.mem_append.1 hd with hd | hd
    · exact hs hd
    · rw [← List.mem_singleton.1 hd] at hc
      exact absurd hc (by decide)
  have hcount : (blank ++ [c]).count ' ' = 0 := List.count_eq_zero.2 fun hm => hspace _ hm rfl
  have hcolumn : IsColumn (blank ++ [c]) :=
    ⟨narrow_of_count (by rw [hcount]; decide), blank, c, rfl, hspace c (by simp)⟩
  obtain ⟨d, more, hd⟩ := List.exists_cons_of_ne_nil (l := blank ++ c :: rest) (by simp)
  have hne : d ≠ ' ' := by
    apply hspace
    cases blank with
    | nil => exact List.mem_singleton.2 (List.cons.inj hd).1.symm
    | cons b blank => exact (List.cons.inj hd).1 ▸ .head _
  obtain ⟨tail, later, hrest⟩ := exists_columnsFrom (blank ++ [c]).reverse 0 rest
  have hsecond : columns (d :: more) = (blank ++ c :: tail) :: later := by
    have happend := hcolumn.columnsFrom_append rest
    rw [hrest, List.reverse_reverse, List.append_assoc, List.append_assoc] at happend
    rw [← hd]
    exact happend
  have hall : columns (first ++ (List.replicate n ' ' ++ (blank ++ c :: rest))) =
      first :: (blank ++ c :: tail) :: later := by
    rw [hd, columns_append h hn hne, hsecond]
  have hfull : (blank ++ c :: tail).isEmpty = false := by simp
  refine ⟨Text.trimEnd tail, ?_⟩
  simp only [name?, hall, List.filter_cons, h.nonempty, hfull, Bool.not_false, if_true,
    List.getElem?_cons_succ, List.getElem?_cons_zero, Text.trim_cons hb hc]
  rfl

def filled (line : Text) : List Text :=
  (columns line).filter fun column => !column.isEmpty

theorem name?_eq_some_iff {line name : Text} :
    name? line = some name ↔
      ∃ column, (filled line)[1]? = some column ∧ name = Text.trim column ∧ name ≠ [] := by
  rw [name?, ← filled]
  cases (filled line)[1]? with
  | none => simp
  | some column =>
    dsimp only
    cases hc : (Text.trim column).isEmpty with
    | true =>
      rw [if_pos rfl]
      constructor
      · intro h
        cases h
      · rintro ⟨found, he, rfl, hne⟩
        cases he
        exact absurd (List.isEmpty_iff.1 hc) hne
    | false =>
      rw [if_neg Bool.false_ne_true]
      constructor
      · intro h
        cases h
        exact ⟨column, rfl, rfl, List.isEmpty_eq_false_iff.1 hc⟩
      · rintro ⟨found, he, rfl, -⟩
        cases he
        rfl

theorem infix_of_mem_columnsFrom {column part rest : Text} {gap : Nat}
    (h : part ∈ columnsFrom column gap rest) :
    part <:+: column.reverse ++ (List.replicate gap ' ' ++ rest) := by
  induction rest generalizing column gap with
  | nil =>
    rw [columnsFrom] at h
    split at h
    · obtain rfl := List.mem_singleton.1 h
      exact (List.prefix_append _ _).isInfix
    · obtain rfl := List.mem_singleton.1 h
      rw [List.reverse_append, List.reverse_replicate, List.append_nil]
  | cons c rest ih =>
    by_cases hc : c = ' '
    · subst hc
      rw [columnsFrom_space] at h
      have hpart := ih h
      rwa [List.replicate_succ', List.append_assoc] at hpart
    · rcases Nat.lt_or_ge gap gapWidth with hlt | hge
      · rw [columnsFrom_narrow hlt hc] at h
        have hpart := ih h
        rw [List.reverse_cons, List.reverse_append, List.reverse_replicate, List.append_assoc,
          List.append_assoc] at hpart
        exact hpart
      · rw [columnsFrom_wide hge hc] at h
        rcases List.mem_cons.1 h with rfl | h
        · exact (List.prefix_append _ _).isInfix
        · exact (ih h).trans ((List.suffix_append _ _).trans (List.suffix_append _ _)).isInfix

theorem infix_of_name? {line name : Text} (h : name? line = some name) : name <:+: line := by
  obtain ⟨column, hcolumn, rfl, -⟩ := name?_eq_some_iff.1 h
  obtain ⟨hmem, -⟩ := List.mem_filter.1 (List.mem_of_getElem? hcolumn)
  obtain ⟨left, right, hsplit, -, -⟩ := Text.exists_trim column
  exact List.IsInfix.trans ⟨left, right, hsplit.symm⟩ (infix_of_mem_columnsFrom hmem)

theorem exists_columnsFrom_append (front column : Text) (gap : Nat) (rest : Text) :
    ∃ earlier last n later,
      columnsFrom column gap front = earlier ++ [last ++ List.replicate n ' '] ∧
      columnsFrom column gap (front ++ (List.replicate gapWidth ' ' ++ rest)) =
        earlier ++ last :: later := by
  induction front generalizing column gap with
  | nil =>
    obtain ⟨later, hlater⟩ := columnsFrom_of_wide (Nat.le_add_left gapWidth gap) column rest
    rw [List.nil_append, columnsFrom_replicate, hlater, columnsFrom]
    split
    · exact ⟨[], column.reverse, 0, later, by simp, rfl⟩
    · exact ⟨[], column.reverse, gap, later, by simp, rfl⟩
  | cons c front ih =>
    rw [List.cons_append]
    by_cases hc : c = ' '
    · subst hc
      rw [columnsFrom_space, columnsFrom_space]
      exact ih column (gap + 1)
    · rcases Nat.lt_or_ge gap gapWidth with hlt | hge
      · rw [columnsFrom_narrow hlt hc, columnsFrom_narrow hlt hc]
        exact ih _ 0
      · obtain ⟨earlier, last, n, later, hfront, hwhole⟩ := ih [c] 0
        rw [columnsFrom_wide hge hc, columnsFrom_wide hge hc, hfront, hwhole]
        exact ⟨column.reverse :: earlier, last, n, later, rfl, rfl⟩

theorem name?_append_wide {front name : Text} (h : name? front = some name) (rest : Text) :
    name? (front ++ (List.replicate gapWidth ' ' ++ rest)) = some name := by
  obtain ⟨column, hcolumn, rfl, hne⟩ := name?_eq_some_iff.1 h
  obtain ⟨earlier, last, n, later, hfront, hwhole⟩ := exists_columnsFrom_append front [] 0 rest
  have hblank : ∀ c ∈ List.replicate n ' ', isBlank c = true := by
    intro c hc
    rw [List.eq_of_mem_replicate hc]
    decide
  rw [filled, columns, hfront, List.filter_append] at hcolumn
  rw [name?_eq_some_iff, filled, columns, hwhole, List.filter_append]
  rcases Nat.lt_or_ge 1 (earlier.filter fun column => !column.isEmpty).length with hlt | hge
  · rw [List.getElem?_append_left hlt] at hcolumn
    exact ⟨column, by rw [List.getElem?_append_left hlt, hcolumn], rfl, hne⟩
  · rw [List.getElem?_append_right hge] at hcolumn
    have hone : (earlier.filter fun column => !column.isEmpty).length = 1 := by
      obtain ⟨hlen, -⟩ := List.getElem?_eq_some_iff.1 hcolumn
      have hmost := List.length_filter_le (fun column : Text => !column.isEmpty)
        [last ++ List.replicate n ' ']
      rw [List.length_singleton] at hmost
      omega
    obtain ⟨hlast, -⟩ := List.mem_filter.1 (List.mem_of_getElem? hcolumn)
    obtain rfl := List.mem_singleton.1 hlast
    rw [Text.trim_append_blank hblank] at hne ⊢
    have hfull : (!last.isEmpty) = true := by
      cases last with
      | nil => exact absurd rfl hne
      | cons c last => rfl
    refine ⟨last, ?_, rfl, hne⟩
    rw [List.getElem?_append_right hge, hone, List.filter_cons, if_pos hfull]
    rfl

end UnrealDecl.Member
