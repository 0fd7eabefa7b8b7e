import UnrealDecl.Proofs.Member.Division

namespace UnrealDecl.Member

/-- Columns with the widths of the gaps in front of them, and a number of spaces at the end. -/
structure Spread where
  first : Text
  later : List (Nat × Text)
  tail : Nat

namespace Spread

def columns (s : Spread) : List Text :=
  s.first :: s.later.map Prod.snd

def text (s : Spread) : Text :=
  s.first ++ (s.later.flatMap fun part => List.replicate part.1 ' ' ++ part.2) ++
    List.replicate s.tail ' '

/-- All gaps are wide, and nothing else: no column has a wide gap, or a space beside one. -/
structure IsWide (s : Spread) : Prop where
  gaps : ∀ part ∈ s.later, gapWidth ≤ part.1
  tail : s.tail = 0 ∨ gapWidth ≤ s.tail
  narrow : ∀ column ∈ s.columns, ¬ List.replicate gapWidth ' ' <:+: column
  starts : ∀ part ∈ s.later, part.2 ≠ [] ∧ part.2.head? ≠ some ' '
  ends : ∀ column ∈ s.columns.dropLast, column.getLast? ≠ some ' '
  closed : s.tail ≠ 0 → ∀ column ∈ s.columns.getLast?, column.getLast? ≠ some ' '

section

variable {first second : Text} {later : List (Nat × Text)} {n tail : Nat}

theorem isWide_single_iff :
    IsWide ⟨first, [], tail⟩ ↔ ¬ List.replicate gapWidth ' ' <:+: first ∧
      (tail = 0 ∨ gapWidth ≤ tail ∧ first.getLast? ≠ some ' ') := by
  constructor
  · intro h
    refine ⟨h.narrow first (.head _), ?_⟩
    rcases Nat.eq_zero_or_pos tail with hzero | hpos
    · exact .inl hzero
    · have hne : tail ≠ 0 := Nat.ne_of_gt hpos
      exact .inr ⟨h.tail.resolve_left hne, h.closed hne first rfl⟩
  · rintro ⟨hnarrow, htail⟩
    refine ⟨by simp, htail.imp_right And.left, by simpa [columns] using hnarrow, by simp,
      by simp [columns], fun hne column hcolumn => ?_⟩
    obtain rfl : first = column := Option.some.inj hcolumn
    exact (htail.resolve_left hne).2

theorem isWide_cons_iff :
    IsWide ⟨first, (n, second) :: later, tail⟩ ↔
      ¬ List.replicate gapWidth ' ' <:+: first ∧ first.getLast? ≠ some ' ' ∧ gapWidth ≤ n ∧
        second ≠ [] ∧ second.head? ≠ some ' ' ∧ IsWide ⟨second, later, tail⟩ := by
  constructor
  · intro h
    have hsecond := h.starts (n, second) (.head _)
    exact ⟨h.narrow first (.head _), h.ends first (.head _), h.gaps (n, second) (.head _),
      hsecond.1, hsecond.2, fun part hp => h.gaps part (.tail _ hp), h.tail,
      fun column hc => h.narrow column (.tail _ hc), fun part hp => h.starts part (.tail _ hp),
      fun column hc => h.ends column (.tail _ hc), h.closed⟩
  · rintro ⟨hnarrow, hends, hn, hne, hstarts, h⟩
    refine ⟨?_, h.tail, ?_, ?_, ?_, h.closed⟩
    · exact List.forall_mem_cons.2 ⟨hn, h.gaps⟩
    · exact List.forall_mem_cons.2 ⟨hnarrow, h.narrow⟩
    · exact List.forall_mem_cons.2 ⟨⟨hne, hstarts⟩, h.starts⟩
    · exact List.forall_mem_cons.2 ⟨hends, h.ends⟩

theorem text_cons (first second : Text) (later : List (Nat × Text)) (n tail : Nat) :
    text ⟨first, (n, second) :: later, tail⟩ =
      first ++ (List.replicate n ' ' ++ text ⟨second, later, tail⟩) := by
  simp [text]

end

theorem exists_first {s : Spread} (h : s.IsWide) {c : Char} {rest : Text}
    (htext : s.text = c :: rest) (hc : c ≠ ' ') : ∃ more, s.first = c :: more := by
  have hspaces : ∀ {n : Nat} {text : Text}, n ≠ 0 →
      List.replicate n ' ' ++ text ≠ c :: rest := by
    intro n text hn he
    obtain ⟨m, rfl⟩ := Nat.exists_eq_succ_of_ne_zero hn
    exact hc (List.cons.inj he).1.symm
  obtain ⟨first, later, tail⟩ := s
  cases first with
  | cons d first => exact ⟨first, congrArg (· :: first) (List.cons.inj htext).1⟩
  | nil =>
    cases later with
    | nil =>
      cases tail with
      | zero => cases htext
      | succ tail =>
        have htail : List.replicate (tail + 1) ' ' ++ [] = c :: rest := by
          rw [List.append_nil]
          exact htext
        exact absurd htail (hspaces (Nat.succ_ne_zero tail))
    | cons part later =>
      obtain ⟨n, second⟩ := part
      obtain ⟨-, -, hn, -⟩ := isWide_cons_iff.1 h
      rw [text_cons] at htext
      refine absurd htext (hspaces ?_)
      rintro rfl
      exact absurd hn (by decide)

theorem divided {s : Spread} (h : s.IsWide) : Divided s.text s.columns := by
  obtain ⟨first, later, tail⟩ := s
  induction later generalizing first with
  | nil =>
    obtain ⟨hnarrow, rfl | ⟨htail, hends⟩⟩ := isWide_single_iff.1 h
    · have htext : text ⟨first, [], 0⟩ = first := by simp [text]
      rw [htext]
      exact .column hnarrow
    · have htext : text ⟨first, [], tail⟩ = first ++ List.replicate tail ' ' := by simp [text]
      rw [htext]
      exact .closed hnarrow hends htail
  | cons part later ih =>
    obtain ⟨n, second⟩ := part
    obtain ⟨hnarrow, hends, hn, hne, hstarts, hlater⟩ := isWide_cons_iff.1 h
    obtain ⟨c, second, rfl⟩ := List.exists_cons_of_ne_nil hne
    have hdivided := ih (c :: second) hlater
    rw [text_cons]
    exact .gap hnarrow hends hn (fun hc => hstarts (congrArg some hc)) hdivided

theorem exists_of_divided {line : Text} {all : List Text} (h : Divided line all) :
    ∃ s : Spread, s.IsWide ∧ s.text = line ∧ s.columns = all := by
  induction h with
  | @column text narrow =>
    exact ⟨⟨text, [], 0⟩, isWide_single_iff.2 ⟨narrow, .inl rfl⟩, by simp [Spread.text], rfl⟩
  | @closed text n narrow ends wide =>
    exact ⟨⟨text, [], n⟩, isWide_single_iff.2 ⟨narrow, .inr ⟨wide, ends⟩⟩, by simp [Spread.text],
      rfl⟩
  | @gap text rest later n c narrow ends wide starts divided ih =>
    obtain ⟨s, hs, htext, rfl⟩ := ih
    obtain ⟨more, hfirst⟩ := exists_first hs htext starts
    refine ⟨⟨text, (n, s.first) :: s.later, s.tail⟩, isWide_cons_iff.2 ⟨narrow, ends, wide, ?_, ?_,
      hs⟩, ?_, rfl⟩
    · rw [hfirst]
      exact List.cons_ne_nil c more
    · rw [hfirst]
      exact fun he => starts (Option.some.inj he)
    · rw [text_cons, ← htext]

end Spread

/-- A line is some columns with wide gaps between them, and perhaps one more at its end. -/
def SpreadOver (line : Text) (all : List Text) : Prop :=
  ∃ s : Spread, s.IsWide ∧ s.text = line ∧ s.columns = all

theorem spreadOver_iff {line : Text} {all : List Text} :
    SpreadOver line all ↔ all = columns line := by
  rw [← divided_iff]
  constructor
  · rintro ⟨s, hs, rfl, rfl⟩
    exact s.divided hs
  · exact Spread.exists_of_divided

end UnrealDecl.Member
