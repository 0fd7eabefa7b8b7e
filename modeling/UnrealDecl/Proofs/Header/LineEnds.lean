import UnrealDecl.Proofs.Conversion.Execution
import UnrealDecl.Proofs.Text.Lines

namespace UnrealDecl

namespace Text

/-- A text with a carriage return put before each line feed. -/
def returned (text : Text) : Text :=
  text.flatMap fun c => if c = '\n' then ['\r', '\n'] else [c]

/-- The second text is the first with carriage returns put before some of its line feeds. -/
inductive Returns : Text → Text → Prop
  | nil : Returns [] []
  | cons {text other : Text} (c : Char) : Returns text other → Returns (c :: text) (c :: other)
  | feed {text other : Text} : Returns text other →
      Returns ('\n' :: text) ('\r' :: '\n' :: other)

namespace Returns

theorem refl (text : Text) : Returns text text := by
  induction text with
  | nil => exact nil
  | cons c text ih => exact cons c ih

theorem append {a b a' b' : Text} (h : Returns a a') (h' : Returns b b') :
    Returns (a ++ b) (a' ++ b') := by
  induction h with
  | nil => exact h'
  | cons c _ ih => exact cons c ih
  | feed _ ih => exact feed ih

theorem returned (text : Text) : Returns text text.returned := by
  induction text with
  | nil => exact nil
  | cons c text ih =>
    rw [Text.returned, List.flatMap_cons]
    split
    · rename_i hc
      rw [hc]
      exact feed ih
    · exact cons c ih

theorem linesFrom {text other : Text} (h : Returns text other) {acc : Text} (ha : '\r' ∉ acc)
    (ht : '\r' ∉ text) : Text.linesFrom acc other = Text.linesFrom acc text := by
  induction h generalizing acc with
  | nil => rfl
  | cons c _ ih =>
    obtain ⟨hc, ht⟩ := List.ne_and_not_mem_of_not_mem_cons ht
    rw [Text.linesFrom, Text.linesFrom, ih List.not_mem_nil ht,
      ih (List.not_mem_cons_of_ne_of_not_mem hc ha) ht]
  | feed _ ih =>
    have hrest := ih List.not_mem_nil (List.not_mem_of_not_mem_cons ht)
    rw [Text.linesFrom, if_neg (by decide), Text.linesFrom, if_pos rfl, Text.linesFrom, if_pos rfl,
      hrest, closeLine_eq_reverse ha]
    rfl

theorem lines {text other : Text} (h : Returns text other) (ht : '\r' ∉ text) :
    Text.lines other = Text.lines text :=
  h.linesFrom List.not_mem_nil ht

end Returns

theorem linesFrom_concat_feed {acc text : Text} (hne : acc ≠ [] ∨ text ≠ []) (ha : '\r' ∉ acc)
    (ht : '\r' ∉ text) (hlast : text.getLast? ≠ some '\n') :
    linesFrom acc (text ++ ['\n']) = linesFrom acc text := by
  induction text generalizing acc with
  | nil =>
    have hacc : acc ≠ [] := hne.resolve_right fun h => h rfl
    have hfeed : linesFrom acc ['\n'] = [closeLine acc] := rfl
    rw [List.nil_append, hfeed, closeLine_eq_reverse ha, linesFrom, if_neg (by simpa using hacc)]
  | cons c text ih =>
    obtain ⟨hc, ht⟩ := List.ne_and_not_mem_of_not_mem_cons ht
    have hrest : text.getLast? ≠ some '\n' := by
      intro h
      rw [List.getLast?_cons, h] at hlast
      exact hlast rfl
    rw [List.cons_append, linesFrom, linesFrom]
    split
    · rename_i hfeed
      have htext : text ≠ [] := by
        rintro rfl
        rw [hfeed] at hlast
        exact hlast rfl
      rw [ih (.inr htext) List.not_mem_nil ht hrest]
    · have hacc : '\r' ∉ c :: acc := List.not_mem_cons_of_ne_of_not_mem hc ha
      rw [ih (.inl (List.cons_ne_nil c acc)) hacc ht hrest]

theorem lines_concat_feed {text : Text} (hne : text ≠ []) (ht : '\r' ∉ text)
    (hlast : text.getLast? ≠ some '\n') : lines (text ++ ['\n']) = lines text :=
  linesFrom_concat_feed (.inr hne) List.not_mem_nil ht hlast

/-- The second text differs from the first in the ends of its lines only: carriage returns are put
before line feeds, and the last line may be ended where it was not. -/
inductive Respelled (text : Text) : Text → Prop
  | returns {other : Text} : Returns text other → Respelled text other
  | ended {other : Text} : text.getLast? ≠ some '\n' → Returns (text ++ ['\n']) other →
      Respelled text other

end Text

namespace Header

theorem fragments_respelled {source other : Text} (hs : '\r' ∉ source)
    (h : Text.Respelled source other) : fragments other = fragments source := by
  cases h with
  | returns h => rw [fragments, h.lines hs, ← fragments]
  | ended hlast h =>
    have hended : '\r' ∉ source ++ ['\n'] := by simp [hs]
    rw [fragments, h.lines hended]
    by_cases hne : source = []
    · subst hne
      decide +kernel
    · rw [Text.lines_concat_feed hne hs hlast, ← fragments]

end Header

open Conversion

theorem Conversion.scanned_respelled {contents contents' : List Bytes}
    (h : List.Forall₂ (fun bytes bytes' => '\r' ∉ Utf8.decodeLossy bytes ∧
      Text.Respelled (Utf8.decodeLossy bytes) (Utf8.decodeLossy bytes')) contents contents') :
    scanned contents' = scanned contents := by
  induction h with
  | nil => rfl
  | cons hb _ ih =>
    rw [scanned, scanned] at ih
    rw [scanned, scanned, List.flatMap_cons, List.flatMap_cons, ih,
      Header.fragments_respelled hb.1 hb.2]

/-- A header has the same fragments with a carriage return before each line feed, and with its last
line ended in either way where it is not. -/
theorem line_ends_ignored :
    (∀ source : Text, '\r' ∉ source →
      Header.fragments source.returned = Header.fragments source ∧
      (source.getLast? ≠ some '\n' → ∀ ending ∈ (["\n", "\r\n"] : List Text),
        Header.fragments (source ++ ending) = Header.fragments source)) ∧
    ∀ contents contents' : List Bytes,
      List.Forall₂ (fun bytes bytes' => '\r' ∉ Utf8.decodeLossy bytes ∧
        Text.Respelled (Utf8.decodeLossy bytes) (Utf8.decodeLossy bytes')) contents contents' →
      ∀ skips, filed skips contents' = filed skips contents ∧
        (filed skips contents').1.catalog.bodies.map ClassBody.render =
          (filed skips contents).1.catalog.bodies.map ClassBody.render := by
  constructor
  · intro source hs
    refine ⟨Header.fragments_respelled hs (.returns (.returned source)), ?_⟩
    intro hlast ending hending
    apply Header.fragments_respelled hs
    apply Text.Respelled.ended hlast
    apply (Text.Returns.refl source).append
    rcases List.mem_cons.1 hending with rfl | hending
    · exact .refl _
    · obtain rfl := List.mem_singleton.1 hending
      exact .feed .nil
  · intro contents contents' h skips
    have hfiled : filed skips contents' = filed skips contents := by
      rw [filed, filed, scanned_respelled h]
    exact ⟨hfiled, by rw [hfiled]⟩

def openHeader : Text :=
  "// Class Core.Object\n\tint   Flags;   // 0x0\n// Enum Core.Object.EAxis\n\x7b\nAXIS_X"

theorem line_ends_ignored_open :
    '\r' ∉ openHeader ∧ openHeader.getLast? ≠ some '\n' ∧
      Header.fragments openHeader.returned = Header.fragments (openHeader ++ ("\r\n" : Text)) ∧
      (filed {} [Utf8.encode openHeader.returned]).1.catalog =
        (filed {} [Utf8.encode openHeader]).1.catalog := by
  have hreturn : '\r' ∉ openHeader := by decide +kernel
  have hlast : openHeader.getLast? ≠ some '\n' := by decide +kernel
  obtain ⟨hsources, hcontents⟩ := line_ends_ignored
  obtain ⟨hreturned, hended⟩ := hsources openHeader hreturn
  have hdecoded : Utf8.decodeLossy (Utf8.encode openHeader) = openHeader := by decide +kernel
  have hdecoded' : Utf8.decodeLossy (Utf8.encode openHeader.returned) = openHeader.returned := by
    decide +kernel
  refine ⟨hreturn, hlast, hreturned.trans (hended hlast _ (by simp)).symm, ?_⟩
  have hpair : List.Forall₂ (fun bytes bytes' => '\r' ∉ Utf8.decodeLossy bytes ∧
      Text.Respelled (Utf8.decodeLossy bytes) (Utf8.decodeLossy bytes'))
      [Utf8.encode openHeader] [Utf8.encode openHeader.returned] := by
    refine .cons ?_ .nil
    rw [hdecoded, hdecoded']
    exact ⟨hreturn, .returns (.returned openHeader)⟩
  rw [(hcontents _ _ hpair {}).1]

end UnrealDecl
