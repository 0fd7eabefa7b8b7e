import UnrealDecl.Proofs.Declaration.Block
import UnrealDecl.Proofs.Header.Specification

namespace UnrealDecl.Header

theorem block_prefix_lines (ls : List Text) : block ls <+: ls :=
  List.take_prefix _ ls

theorem head?_block (ls : List Text) : (block ls).head? = ls.head? := by
  cases ls with
  | nil => rfl
  | cons line rest => rw [block_cons, List.head?_cons, List.head?_cons]

theorem brace_mem_block {ls : List Text} {line : Text} (hl : line ∈ ls) (hb : '\x7d' ∈ line) :
    ∃ last ∈ block ls, '\x7d' ∈ last := by
  induction ls with
  | nil => cases hl
  | cons first rest ih =>
    rw [block_cons]
    by_cases hfirst : '\x7d' ∈ first
    · exact ⟨first, .head _, hfirst⟩
    · rcases List.mem_cons.1 hl with rfl | hl
      · exact absurd hb hfirst
      · obtain ⟨last, hlast, hb⟩ := ih hl
        rw [if_neg hfirst]
        exact ⟨last, .tail _ hlast, hb⟩

/-- The text of the block that the first line of a text opens. -/
def blockText (text : Text) : Text :=
  Text.unlines (block (Text.lines text))

variable {text : Text}

theorem lines_blockText (h : '\r' ∉ text) :
    Text.lines (blockText text) = block (Text.lines text) := by
  have hmem : ∀ line ∈ block (Text.lines text), line ∈ Text.lines text :=
    fun line hl => (block_prefix_lines _).subset hl
  apply Text.lines_unlines
  · intro line hl
    exact Text.feed_not_mem_of_mem_lines (hmem line hl)
  · intro line hl hm
    exact h (Text.mem_of_mem_lines (hmem line hl) hm)

theorem qualifierOf_blockText (h : '\r' ∉ text) :
    Enumeration.qualifierOf (blockText text) = Enumeration.qualifierOf text := by
  apply Enumeration.qualifierOf_congr
  rw [lines_blockText h, head?_block]

theorem blockText_prefix_unlines (text : Text) :
    blockText text <+: Text.unlines (Text.lines text) := by
  obtain ⟨later, hlater⟩ := block_prefix_lines (Text.lines text)
  refine ⟨Text.unlines later, ?_⟩
  rw [blockText, ← Text.unlines_append, hlater]

theorem text_prefix_unlines (h : '\r' ∉ text) : text <+: Text.unlines (Text.lines text) := by
  rcases Text.unlines_lines h with he | he
  · rw [he]
  · rw [he]
    exact List.prefix_append text ['\n']

theorem prefix_text {part : Text} (h : '\r' ∉ text)
    (hp : part ++ ['\x7d'] <+: Text.unlines (Text.lines text)) : part ++ ['\x7d'] <+: text := by
  rcases Text.unlines_lines h with he | he
  · rwa [he] at hp
  · rw [he] at hp
    rcases List.prefix_concat_iff.1 hp with hwhole | hp
    · exact absurd (List.append_inj_right' hwhole rfl) (by decide)
    · exact hp

theorem brace_mem_blockText (h : '\r' ∉ text) (hb : '\x7d' ∈ text) : '\x7d' ∈ blockText text := by
  have hfeed : '\x7d' ≠ '\n' := by decide
  obtain ⟨line, hl, hb⟩ := (Text.mem_unlines_iff hfeed).1 ((text_prefix_unlines h).subset hb)
  exact (Text.mem_unlines_iff hfeed).2 (brace_mem_block hl hb)

theorem body?_of_blockText {body : Text} (h : '\r' ∉ text)
    (hbody : Enumeration.body? (blockText text) = some body) :
    Enumeration.body? text = some body := by
  obtain ⟨front, hfront, hclose, hp⟩ := Enumeration.body?_eq_some_iff.1 hbody
  apply Enumeration.body?_eq_some_iff.2
  refine ⟨front, hfront, hclose, ?_⟩
  rw [← List.cons_append, ← List.append_assoc] at hp ⊢
  exact prefix_text h (hp.trans (blockText_prefix_unlines text))

/-- A block has the body of its text, if no closing brace in front of the body cuts it off. -/
theorem body?_blockText {body : Text} (h : '\r' ∉ text)
    (hclear : '\x7d' ∉ text.takeWhile (· != '\x7b')) (hbody : Enumeration.body? text = some body) :
    Enumeration.body? (blockText text) = some body := by
  obtain ⟨front, hfront, hclose, hp⟩ := Enumeration.body?_eq_some_iff.1 hbody
  apply Enumeration.body?_eq_some_iff.2
  refine ⟨front, hfront, hclose, ?_⟩
  have hbefore : '\x7d' ∉ front ++ '\x7b' :: body := by
    obtain ⟨rest, rfl⟩ := hp
    rw [List.append_assoc, List.takeWhile_append_of_pos] at hclear
    · simpa [hclose] using hclear
    · intro c hc
      exact bne_iff_ne.2 fun he => hfront (he ▸ hc)
  have hbrace : '\x7d' ∈ blockText text := by
    apply brace_mem_blockText h
    exact hp.subset (by simp)
  have hwhole := hp.trans (text_prefix_unlines h)
  rcases List.prefix_or_prefix_of_prefix hwhole (blockText_prefix_unlines text) with hle | hle
  · exact hle
  · rw [← List.cons_append, ← List.append_assoc] at hle ⊢
    rcases List.prefix_concat_iff.1 hle with he | hle
    · rw [he]
    · exact absurd (hle.subset hbrace) hbefore

theorem parse_of_blockText {e : Enumeration} (h : '\r' ∉ text)
    (he : Enumeration.parse (blockText text) = .ok e) : Enumeration.parse text = .ok e := by
  obtain ⟨hq, body, hbody, hmembers⟩ := Enumeration.parse_eq_ok_iff.1 he
  rw [qualifierOf_blockText h] at hq
  exact Enumeration.parse_eq_ok_iff.2 ⟨hq, body, body?_of_blockText h hbody, hmembers⟩

theorem parse_blockText {e : Enumeration} (h : '\r' ∉ text)
    (hclear : '\x7d' ∉ text.takeWhile (· != '\x7b')) (he : Enumeration.parse text = .ok e) :
    Enumeration.parse (blockText text) = .ok e := by
  obtain ⟨hq, body, hbody, hmembers⟩ := Enumeration.parse_eq_ok_iff.1 he
  rw [← qualifierOf_blockText h] at hq
  exact Enumeration.parse_eq_ok_iff.2 ⟨hq, body, body?_blockText h hclear hbody, hmembers⟩

/-- An enumeration is cut out as the block that its line and those after it open. -/
theorem text_of_mem {source : Text} {f : Fragment} (hf : f ∈ fragments source)
    (hk : f.kind = .enumeration) : f.text = blockText (Text.dropLines (f.line - 1) source) := by
  obtain ⟨i, hf⟩ := mem_fragments_iff.1 hf
  cases hf with
  | block =>
    change _ = Text.unlines (block (Text.lines (Text.dropLines i source)))
    rw [Text.lines_dropLines]
  | member => cases hk

/-- What is read from the block of an enumeration is read from the source from its first line on,
and the other way round unless a closing brace stands in front of the body. -/
theorem block_suffices {source : Text} {f : Fragment} (h : '\r' ∉ source)
    (hf : f ∈ fragments source) (hk : f.kind = .enumeration) :
    (∀ e, Enumeration.parse f.text = .ok e →
      Enumeration.parse (Text.dropLines (f.line - 1) source) = .ok e) ∧
    ∀ e, Enumeration.parse (Text.dropLines (f.line - 1) source) = .ok e →
      '\x7d' ∉ (Text.dropLines (f.line - 1) source).takeWhile (· != '\x7b') →
      Enumeration.parse f.text = .ok e := by
  have hrest : '\r' ∉ Text.dropLines (f.line - 1) source :=
    fun hm => h (Text.dropLines_subset _ source hm)
  rw [text_of_mem hf hk]
  constructor
  · intro e he
    exact parse_of_blockText hrest he
  · intro e he hclear
    exact parse_blockText hrest hclear he

def openEnded : Text :=
  "\tint A;\n// Enum Core.Object.EAxis\n\x7b\nAXIS_NONE = 0,\nAXIS_X = 1 \x7d"

theorem block_suffices_openEnded :
    ∃ f ∈ fragments openEnded, f.line = 2 ∧ Text.dropLines 1 openEnded ++ ['\n'] = f.text ∧
      Enumeration.parse f.text = .ok ⟨⟨"Core", "Object", "EAxis"⟩, ["AXIS_NONE", "AXIS_X"]⟩ ∧
      Enumeration.parse (Text.dropLines 1 openEnded) =
        .ok ⟨⟨"Core", "Object", "EAxis"⟩, ["AXIS_NONE", "AXIS_X"]⟩ := by
  let f : Fragment := ⟨.enumeration, none,
    "// Enum Core.Object.EAxis\n\x7b\nAXIS_NONE = 0,\nAXIS_X = 1 \x7d\n", 2⟩
  have hf : f ∈ fragments openEnded := by decide +kernel
  obtain ⟨hforth, hback⟩ := block_suffices (by decide) hf rfl
  have hparse := hback ⟨⟨"Core", "Object", "EAxis"⟩, ["AXIS_NONE", "AXIS_X"]⟩ (by decide +kernel)
    (by decide +kernel)
  exact ⟨f, hf, rfl, by decide +kernel, hparse, hforth _ hparse⟩

/-- A closing brace in the title cuts the block off in front of its body. -/
example :
    let source : Text := "// Enum Core.Object.EAxis \x7d\n\x7b\nAXIS_X\n\x7d"
    (fragments source).map (fun f => (f.line, Enumeration.parse f.text)) =
        [(1, .error (.noBody "EAxis"))] ∧
      Enumeration.parse (Text.dropLines 0 source) =
        .ok ⟨⟨"Core", "Object", "EAxis"⟩, ["AXIS_X"]⟩ := by
  decide +kernel

end UnrealDecl.Header
