import UnrealDecl.Proofs.Member.Columns

namespace UnrealDecl.Member

/-- A line consists of columns with a wide gap between each two of them, and perhaps one at its
end. -/
inductive Divided : Text → List Text → Prop
  | column {text : Text} (narrow : ¬ List.replicate gapWidth ' ' <:+: text) : Divided text [text]
  | closed {text : Text} {n : Nat} (narrow : ¬ List.replicate gapWidth ' ' <:+: text)
      (ends : text.getLast? ≠ some ' ') (wide : gapWidth ≤ n) :
      Divided (text ++ List.replicate n ' ') [text]
  | gap {text rest : Text} {later : List Text} {n : Nat} {c : Char}
      (narrow : ¬ List.replicate gapWidth ' ' <:+: text) (ends : text.getLast? ≠ some ' ')
      (wide : gapWidth ≤ n) (starts : c ≠ ' ') (divided : Divided (c :: rest) later) :
      Divided (text ++ (List.replicate n ' ' ++ c :: rest)) (text :: later)

theorem narrow_append_replicate {text : Text} {n : Nat}
    (h : ¬ List.replicate gapWidth ' ' <:+: text) (ends : text.getLast? ≠ some ' ')
    (hn : n < gapWidth) : ¬ List.replicate gapWidth ' ' <:+: text ++ List.replicate n ' ' := by
  induction n with
  | zero => rwa [List.replicate_zero, List.append_nil]
  | succ n ih =>
    rw [List.replicate_succ', ← List.append_assoc, List.infix_concat_iff]
    rintro (hs | hi)
    · obtain ⟨more, hm⟩ := Nat.exists_eq_add_of_lt hn
      rw [List.append_assoc, ← List.replicate_succ', hm, Nat.add_comm (n + 1), Nat.add_right_comm,
        ← List.replicate_append_replicate, List.suffix_append_self_iff] at hs
      obtain ⟨front, rfl⟩ := hs
      exact ends (by rw [List.replicate_succ', ← List.append_assoc, List.getLast?_concat])
    · exact ih (Nat.lt_of_succ_lt hn) hi

theorem narrow_concat {text : Text} {c : Char} (h : ¬ List.replicate gapWidth ' ' <:+: text)
    (hc : c ≠ ' ') : ¬ List.replicate gapWidth ' ' <:+: text ++ [c] := by
  rw [List.infix_concat_iff]
  rintro (hs | hi)
  · have hlast := hs.getLast (by decide)
    rw [List.getLast_replicate, List.getLast_concat] at hlast
    exact hc hlast.symm
  · exact h hi

theorem divided_columnsFrom {column : Text} {gap : Nat} {rest : Text}
    (h : ¬ List.replicate gapWidth ' ' <:+: column.reverse) (ends : column.head? ≠ some ' ') :
    Divided (column.reverse ++ (List.replicate gap ' ' ++ rest)) (columnsFrom column gap rest) := by
  induction rest generalizing column gap with
  | nil =>
    rw [← List.getLast?_reverse] at ends
    rw [List.append_nil, columnsFrom]
    split
    · exact .closed h ends ‹_›
    · have hcolumn : (List.replicate gap ' ' ++ column).reverse =
          column.reverse ++ List.replicate gap ' ' := by
        rw [List.reverse_append, List.reverse_replicate]
      rw [hcolumn]
      exact .column (narrow_append_replicate h ends (Nat.lt_of_not_le ‹_›))
  | cons c rest ih =>
    by_cases hc : c = ' '
    · subst hc
      rw [List.append_cons (List.replicate gap ' '), ← List.replicate_succ', columnsFrom_space]
      exact ih h ends
    · have hhead : ∀ text : Text, (c :: text).head? ≠ some ' ' := by
        intro text he
        exact hc (Option.some.inj he)
      rcases Nat.lt_or_ge gap gapWidth with hlt | hge
      · have hopen : (c :: (List.replicate gap ' ' ++ column)).reverse =
            column.reverse ++ List.replicate gap ' ' ++ [c] := by
          rw [List.reverse_cons, List.reverse_append, List.reverse_replicate]
        have hnarrow : ¬ List.replicate gapWidth ' ' <:+:
            (c :: (List.replicate gap ' ' ++ column)).reverse := by
          rw [← List.getLast?_reverse] at ends
          rw [hopen]
          exact narrow_concat (narrow_append_replicate h ends hlt) hc
        have hrest : Divided ((c :: (List.replicate gap ' ' ++ column)).reverse ++
            (List.replicate 0 ' ' ++ rest)) _ := ih hnarrow (hhead _)
        rw [hopen, List.append_assoc, List.append_assoc] at hrest
        rw [columnsFrom_narrow hlt hc]
        exact hrest
      · have hsingle : ¬ List.replicate gapWidth ' ' <:+: [c].reverse := by
          apply narrow_of_count
          rw [List.reverse_singleton, List.count_singleton, if_neg (by simpa)]
          decide
        have hrest : Divided ([c].reverse ++ (List.replicate 0 ' ' ++ rest)) _ :=
          ih hsingle (hhead [])
        rw [← List.getLast?_reverse] at ends
        rw [columnsFrom_wide hge hc]
        exact .gap h ends hge hc hrest

theorem columnsFrom_of_narrow {gap : Nat} {rest : Text}
    (h : ¬ List.replicate gapWidth ' ' <:+: List.replicate gap ' ' ++ rest) (column : Text) :
    columnsFrom column gap rest = [column.reverse ++ (List.replicate gap ' ' ++ rest)] := by
  induction rest generalizing column gap with
  | nil =>
    rw [columnsFrom, if_neg (Nat.not_le.2 (gap_lt_of_narrow h)), List.reverse_append,
      List.reverse_replicate, List.append_nil]
  | cons c rest ih =>
    by_cases hc : c = ' '
    · subst hc
      rw [List.append_cons (List.replicate gap ' '), ← List.replicate_succ'] at h ⊢
      rw [columnsFrom_space]
      exact ih h column
    · have hrest : ¬ List.replicate gapWidth ' ' <:+: List.replicate 0 ' ' ++ rest := by
        intro hi
        exact h (hi.trans ((List.suffix_cons c rest).trans (List.suffix_append _ _)).isInfix)
      rw [columnsFrom_narrow (gap_lt_of_narrow h) hc, ih hrest]
      simp

theorem columnsFrom_of_ends {text : Text} (h : ¬ List.replicate gapWidth ' ' <:+: text)
    (ends : text.getLast? ≠ some ' ') (rest : Text) :
    columnsFrom [] 0 (text ++ rest) = columnsFrom text.reverse 0 rest := by
  rcases List.eq_nil_or_concat' text with rfl | ⟨front, c, rfl⟩
  · rfl
  · have hc : c ≠ ' ' := by
      rintro rfl
      exact ends List.getLast?_concat
    exact IsColumn.columnsFrom_append ⟨h, front, c, rfl, hc⟩ rest

/-- A line is divided into columns in one way only. -/
theorem divided_iff {line : Text} {later : List Text} :
    Divided line later ↔ later = columns line := by
  constructor
  · intro h
    induction h with
    | @column text narrow =>
      have hnarrow : ¬ List.replicate gapWidth ' ' <:+: List.replicate 0 ' ' ++ text := narrow
      exact (columnsFrom_of_narrow hnarrow []).symm
    | @closed text n narrow ends wide =>
      have hspaces := columnsFrom_replicate text.reverse 0 n []
      rw [List.append_nil, Nat.zero_add] at hspaces
      rw [columns, columnsFrom_of_ends narrow ends, hspaces, columnsFrom, if_pos wide,
        List.reverse_reverse]
    | @gap text rest later n c narrow ends wide starts divided ih =>
      have hwide : gapWidth ≤ 0 + n := by omega
      rw [columns, columnsFrom_of_ends narrow ends, columnsFrom_replicate,
        columnsFrom_wide hwide starts, columnsFrom_single starts, List.reverse_reverse, ih]
      rfl
  · rintro rfl
    have hempty : ¬ List.replicate gapWidth ' ' <:+: ([] : Text).reverse := by decide
    have hline : Divided (([] : Text).reverse ++ (List.replicate 0 ' ' ++ line)) (columns line) :=
      divided_columnsFrom hempty (by decide)
    exact hline

/-- The second column of a line that is not empty has something other than white space. -/
def Named (line : Text) : Prop :=
  ∃ all column, Divided line all ∧ (all.filter fun column => !column.isEmpty)[1]? = some column ∧
    ∃ c ∈ column, isBlank c = false

theorem named_iff {line : Text} : Named line ↔ ∃ name, name? line = some name := by
  constructor
  · rintro ⟨all, column, hall, hcolumn, c, hc, hsolid⟩
    obtain rfl := divided_iff.1 hall
    refine ⟨Text.trim column, name?_eq_some_iff.2 ⟨column, hcolumn, rfl, fun he => ?_⟩⟩
    rw [Text.trim_eq_nil_iff.1 he c hc] at hsolid
    cases hsolid
  · rintro ⟨name, hname⟩
    obtain ⟨column, hcolumn, rfl, hne⟩ := name?_eq_some_iff.1 hname
    refine ⟨columns line, column, divided_iff.2 rfl, hcolumn, ?_⟩
    by_contra hblank
    apply hne
    apply Text.trim_eq_nil_iff.2
    intro c hc
    exact Bool.of_not_eq_false fun hsolid => hblank ⟨c, hc, hsolid⟩

end UnrealDecl.Member
