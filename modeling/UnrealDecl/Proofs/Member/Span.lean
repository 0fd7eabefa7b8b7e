import Mathlib.Data.List.Forall2
import UnrealDecl.Member.Span
import UnrealDecl.Proofs.Member.Spread

namespace UnrealDecl

namespace Utf8

theorem encode_append (a b : Text) : encode (a ++ b) = encode a ++ encode b :=
  List.flatMap_append

theorem encode_cons (c : Char) (text : Text) :
    encode (c :: text) = String.utf8EncodeChar c ++ encode text :=
  List.flatMap_cons

theorem encode_singleton (c : Char) : encode [c] = String.utf8EncodeChar c :=
  List.flatMap_singleton ..

theorem ne_space_of_mem_encodeChar {c : Char} (hc : c ≠ ' ') :
    ∀ byte ∈ String.utf8EncodeChar c, byte ≠ 0x20 := by
  have hcode : c.val.toNat ≠ 32 := by
    intro h
    exact hc (Char.ext (UInt32.toNat_inj.1 h))
  have hbyte : ∀ n : Nat, n % 256 ≠ 32 → UInt8.ofNat n ≠ 0x20 := by
    intro n hn h
    have hn' := congrArg UInt8.toNat h
    rw [UInt8.toNat_ofNat'] at hn'
    exact hn hn'
  intro byte hmem
  unfold String.utf8EncodeChar at hmem
  dsimp only at hmem
  split at hmem
  · obtain rfl := List.mem_singleton.1 hmem
    exact hbyte _ (by omega)
  · split at hmem
    · simp only [List.mem_cons, List.not_mem_nil, or_false] at hmem
      rcases hmem with rfl | rfl <;> exact hbyte _ (by omega)
    · split at hmem
      · simp only [List.mem_cons, List.not_mem_nil, or_false] at hmem
        rcases hmem with rfl | rfl | rfl <;> exact hbyte _ (by omega)
      · simp only [List.mem_cons, List.not_mem_nil, or_false] at hmem
        rcases hmem with rfl | rfl | rfl | rfl <;> exact hbyte _ (by omega)

theorem encodeChar_ne_nil (c : Char) : String.utf8EncodeChar c ≠ [] := by
  rw [← List.length_pos_iff, String.length_utf8EncodeChar]
  exact c.utf8Size_pos

end Utf8

namespace Member

open Utf8 (encode)

/-- An offset in bytes that lies between two characters of a text, or at one of its ends. -/
def IsBoundary (text : Text) (offset : Nat) : Prop :=
  ∃ front rest, text = front ++ rest ∧ (encode front).length = offset

/-- A span stands for a part of a line. -/
def Span.Holds (line : Text) (s : Span) (part : Text) : Prop :=
  ∃ front rest, line = front ++ part ++ rest ∧ s.start = (encode front).length ∧
    s.stop = (encode (front ++ part)).length

namespace Span.Holds

variable {line part : Text} {s : Span}

theorem boundaries (h : Holds line s part) :
    s.start ≤ s.stop ∧ IsBoundary line s.start ∧ IsBoundary line s.stop := by
  obtain ⟨front, rest, hline, hstart, hstop⟩ := h
  refine ⟨?_, ⟨front, part ++ rest, ?_, hstart.symm⟩, ⟨front ++ part, rest, hline, hstop.symm⟩⟩
  · rw [hstart, hstop, Utf8.encode_append, List.length_append]
    exact Nat.le_add_right _ _
  · rw [hline, List.append_assoc]

theorem cut_eq (h : Holds line s part) : s.cut (encode line) = encode part := by
  obtain ⟨front, rest, hline, hstart, hstop⟩ := h
  rw [Span.cut, hline, Utf8.encode_append, List.take_left' hstop.symm, Utf8.encode_append,
    List.drop_left' hstart.symm]

end Span.Holds

namespace GapScan

theorem scan_append (s : GapScan) (offset : Nat) (front rest : Bytes) :
    s.scan offset (front ++ rest) = (s.scan offset front).scan (offset + front.length) rest := by
  induction front generalizing s offset with
  | nil => rfl
  | cons byte front ih =>
    rw [List.cons_append, scan, scan, ih, List.length_cons, Nat.add_right_comm, Nat.add_assoc]

def meet (s : GapScan) (offset : Nat) : GapScan :=
  if gapWidth ≤ s.gap then
    { s with ended := s.ended ++ [⟨s.columnStart, s.gapStart⟩], columnStart := offset, gap := 0 }
  else { s with gap := 0 }

theorem meet_meet (s : GapScan) (offset later : Nat) :
    (s.meet offset).meet later = s.meet offset := by
  rw [meet, meet]
  split <;> rfl

/-- Of a character that is not a space, the first byte does all, however many bytes it has. -/
theorem scan_solid {bytes : Bytes} (hne : bytes ≠ []) (h : ∀ byte ∈ bytes, byte ≠ 0x20)
    (s : GapScan) (offset : Nat) : s.scan offset bytes = s.meet offset := by
  induction bytes generalizing s offset with
  | nil => exact absurd rfl hne
  | cons byte bytes ih =>
    have hstep : s.step offset byte = s.meet offset := if_neg (h byte (.head _))
    rw [scan, hstep]
    cases bytes with
    | nil => rfl
    | cons next bytes =>
      rw [ih (List.cons_ne_nil next bytes) (fun b hb => h b (.tail _ hb)), meet_meet]

end GapScan

/-- The line up to an open column, given backwards, and the spaces behind it. -/
def lineUpTo (done column : Text) (gap : Nat) : Text :=
  done ++ column.reverse ++ List.replicate gap ' '

theorem lineUpTo_space (done column : Text) (gap : Nat) :
    lineUpTo done column gap ++ [' '] = lineUpTo done column (gap + 1) := by
  rw [lineUpTo, lineUpTo, List.replicate_succ', List.append_assoc]

theorem lineUpTo_narrow (done column : Text) (gap : Nat) (c : Char) :
    lineUpTo done column gap ++ [c] =
      lineUpTo done (c :: (List.replicate gap ' ' ++ column)) 0 := by
  simp [lineUpTo]

theorem lineUpTo_single (done : Text) (c : Char) : done ++ [c] = lineUpTo done [c] 0 := by
  simp [lineUpTo]

/-- A scan stands behind an open column, given backwards, and a number of spaces; what comes before
that column is done. -/
structure GapScan.StandsAt (s : GapScan) (done column : Text) (gap : Nat) : Prop where
  columnStart : s.columnStart = (encode done).length
  width : s.gap = gap
  gapStart : gap ≠ 0 → s.gapStart = (encode (done ++ column.reverse)).length

namespace GapScan.StandsAt

variable {s : GapScan} {done column : Text} {gap : Nat}

theorem step_space (h : s.StandsAt done column gap) :
    (s.step (encode (lineUpTo done column gap)).length 0x20).StandsAt done column (gap + 1) where
  columnStart := h.columnStart
  width := congrArg (· + 1) h.width
  gapStart _ := by
    change (if s.gap = 0 then (encode (lineUpTo done column gap)).length else s.gapStart) = _
    rw [h.width]
    split
    · rename_i hzero
      rw [lineUpTo, hzero, List.replicate_zero, List.append_nil]
    · exact h.gapStart ‹_›

theorem meet_narrow (h : s.StandsAt done column gap) (hgap : gap < gapWidth) (c : Char)
    (offset : Nat) :
    (s.meet offset).ended = s.ended ∧
      (s.meet offset).StandsAt done (c :: (List.replicate gap ' ' ++ column)) 0 := by
  rw [GapScan.meet, h.width, if_neg (Nat.not_le.2 hgap)]
  exact ⟨rfl, h.columnStart, rfl, fun hzero => absurd rfl hzero⟩

theorem meet_wide (h : s.StandsAt done column gap) (hgap : gapWidth ≤ gap) (c : Char) :
    let front := lineUpTo done column gap
    (s.meet (encode front).length).ended = s.ended ++ [⟨s.columnStart, s.gapStart⟩] ∧
      (s.meet (encode front).length).StandsAt front [c] 0 := by
  intro front
  rw [GapScan.meet, h.width, if_pos hgap]
  exact ⟨rfl, rfl, rfl, fun hzero => absurd rfl hzero⟩

theorem holds_wide (h : s.StandsAt done column gap) (hgap : gapWidth ≤ gap) (rest : Text) :
    Span.Holds (lineUpTo done column gap ++ rest) ⟨s.columnStart, s.gapStart⟩ column.reverse := by
  have hne : gap ≠ 0 := by
    rintro rfl
    exact absurd hgap (by decide)
  exact ⟨done, List.replicate gap ' ' ++ rest, List.append_assoc _ _ _, h.columnStart,
    h.gapStart hne⟩

theorem holds_finish (h : s.StandsAt done column gap) :
    let line := lineUpTo done column gap
    ∃ last, s.finish (encode line).length = s.ended ++ [last] ∧
      List.Forall₂ (Span.Holds line) [last] (columnsFrom column gap []) := by
  intro line
  refine ⟨_, rfl, ?_⟩
  rw [columnsFrom, h.width]
  split
  · have hholds := h.holds_wide ‹_› []
    rw [List.append_nil] at hholds
    exact .cons hholds .nil
  · have hwhole : done ++ (List.replicate gap ' ' ++ column).reverse = line := by
      rw [List.reverse_append, List.reverse_replicate, ← List.append_assoc]
      rfl
    refine .cons ⟨done, [], ?_, h.columnStart, ?_⟩ .nil
    · rw [hwhole, List.append_nil]
    · rw [hwhole]

end GapScan.StandsAt

/-- From any character of a line on, the bytes tell the same columns as the characters. -/
theorem GapScan.StandsAt.holds_scan {s : GapScan} {done column : Text} {gap : Nat}
    (h : s.StandsAt done column gap) (rest : Text) :
    let front := lineUpTo done column gap
    ∃ found, (s.scan (encode front).length (encode rest)).finish (encode (front ++ rest)).length =
        s.ended ++ found ∧
      List.Forall₂ (Span.Holds (front ++ rest)) found (columnsFrom column gap rest) := by
  induction rest generalizing s done column gap with
  | nil =>
    intro front
    obtain ⟨last, hlast, hholds⟩ := h.holds_finish
    rw [List.append_nil]
    exact ⟨[last], hlast, hholds⟩
  | cons c rest ih =>
    intro front
    have hlength : (encode (front ++ [c])).length =
        (encode front).length + (String.utf8EncodeChar c).length := by
      rw [Utf8.encode_append, List.length_append, Utf8.encode_singleton]
    rw [List.append_cons front, Utf8.encode_cons, GapScan.scan_append, ← hlength]
    by_cases hc : c = ' '
    · subst hc
      rw [columnsFrom_space, lineUpTo_space]
      exact ih h.step_space
    · rw [GapScan.scan_solid (Utf8.encodeChar_ne_nil c) (Utf8.ne_space_of_mem_encodeChar hc)]
      rcases Nat.lt_or_ge gap gapWidth with hlt | hge
      · obtain ⟨hended, hstands⟩ := h.meet_narrow hlt c (encode front).length
        rw [columnsFrom_narrow hlt hc, lineUpTo_narrow, ← hended]
        exact ih hstands
      · obtain ⟨hended, hstands⟩ := h.meet_wide hge c
        obtain ⟨found, hfound, hholds⟩ := ih hstands
        rw [columnsFrom_wide hge hc, lineUpTo_single]
        refine ⟨⟨s.columnStart, s.gapStart⟩ :: found, ?_, .cons ?_ hholds⟩
        · rw [hfound, hended, List.append_assoc]
          rfl
        · rw [← lineUpTo_single, List.append_assoc]
          exact h.holds_wide hge _

theorem holds_spans (line : Text) : List.Forall₂ (Span.Holds line) (spans line) (columns line) := by
  have hstart : GapScan.StandsAt {} [] [] 0 := ⟨rfl, rfl, fun hzero => absurd rfl hzero⟩
  obtain ⟨found, hfound, hholds⟩ := hstart.holds_scan line
  have hspans : spans line = found := hfound
  rw [hspans]
  exact hholds

/-- The search through the bytes of a line cuts between characters only, and what it cuts out are
the columns, into which the line can be divided in one way only. -/
theorem spans_columns (line : Text) :
    (∀ s ∈ spans line, s.start ≤ s.stop ∧ IsBoundary line s.start ∧ IsBoundary line s.stop) ∧
    (spans line).map (fun s => s.cut (encode line)) = (columns line).map encode ∧
    (∀ all, SpreadOver line all ↔ all = columns line) ∧
    ∀ name, name? line = some name ↔ ∃ all column, SpreadOver line all ∧
      (all.filter fun column => !column.isEmpty)[1]? = some column ∧ name = Text.trim column ∧
      name ≠ [] := by
  have hspans : List.Forall₂ (fun s part =>
      (s.start ≤ s.stop ∧ IsBoundary line s.start ∧ IsBoundary line s.stop) ∧
        s.cut (encode line) = encode part) (spans line) (columns line) :=
    (holds_spans line).imp fun _ _ h => ⟨h.boundaries, h.cut_eq⟩
  obtain ⟨hboundaries, hcuts⟩ := (List.forall₂_and_left _ _).1 hspans
  refine ⟨hboundaries, ?_, fun all => spreadOver_iff, fun name => ?_⟩
  · rwa [← List.forall₂_eq_eq_eq, List.forall₂_map_left_iff, List.forall₂_map_right_iff]
  · rw [name?_eq_some_iff]
    constructor
    · rintro ⟨column, hcolumn, hname⟩
      exact ⟨columns line, column, spreadOver_iff.2 rfl, hcolumn, hname⟩
    · rintro ⟨all, column, hall, hcolumn, hname⟩
      obtain rfl := spreadOver_iff.1 hall
      exact ⟨column, hcolumn, hname⟩

theorem spans_columns_accents :
    let line : Text := "é   ünit Ł   "
    spans line = [⟨0, 2⟩, ⟨5, 13⟩] ∧ IsBoundary line 5 ∧ IsBoundary line 13 ∧
      SpreadOver line ["é", "ünit Ł"] ∧ name? line = some "ünit Ł" := by
  intro line
  obtain ⟨hboundaries, -, hspread, hname⟩ := spans_columns line
  have hspans : spans line = [⟨0, 2⟩, ⟨5, 13⟩] := by decide
  have hcolumns : columns line = ["é", "ünit Ł"] := by decide
  have hover : SpreadOver line ["é", "ünit Ł"] := (hspread _).2 hcolumns.symm
  obtain ⟨-, hstart, hstop⟩ := hboundaries ⟨5, 13⟩ (hspans ▸ .tail _ (.head _))
  refine ⟨hspans, hstart, hstop, hover, (hname _).2 ⟨_, "ünit Ł", hover, rfl, ?_, ?_⟩⟩
  · decide
  · decide

end Member

end UnrealDecl
