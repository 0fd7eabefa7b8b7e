import UnrealDecl.Proofs.Declaration.Block
import UnrealDecl.Proofs.Header.Layout

namespace UnrealDecl.Header

theorem isIdentifier_subset {text : Text} (h : isIdentifier text = true) :
    text ⊆ letters ++ digits := by
  intro c hc
  cases text with
  | nil => exact absurd hc List.not_mem_nil
  | cons d rest =>
    rw [isIdentifier, Bool.and_eq_true, decide_eq_true_eq, List.all_eq_true] at h
    rcases List.mem_cons.1 hc with rfl | hc
    · exact List.mem_append_left _ h.1
    · exact of_decide_eq_true (h.2 c hc)

theorem isBlank_of_identifier {c : Char} (h : c ∈ letters ++ digits) : isBlank c = false := by
  have solid : ∀ c ∈ letters ++ digits, isBlank c = false := by decide +kernel
  exact solid c h

theorem not_marker_of_head {blank : Text} {c : Char} (hb : ∀ d ∈ blank, isBlank d = true)
    (hc : isBlank c = false) (hs : c ≠ '/') (text : Text) :
    ∀ word ∈ markers, ¬ word <+: Text.trim (blank ++ c :: text) := by
  intro word hw hp
  have slash : ∀ word ∈ markers, word.head? = some '/' := by decide
  obtain ⟨rest, hrest⟩ := hp
  rw [Text.trim_cons hb hc] at hrest
  obtain ⟨d, tail, rfl⟩ := List.exists_cons_of_ne_nil (l := word)
    (by rintro rfl; exact absurd (slash [] hw) (by decide))
  have hd := slash _ hw
  rw [List.cons_append, List.cons.injEq] at hrest
  exact hs (hrest.1 ▸ Option.some.inj hd)

theorem trim_title {word name : Text} (hw : word ∈ markers) (hne : name ≠ [])
    (hname : ∀ c ∈ name, isBlank c = false) : Text.trim (word ++ name) = word ++ name := by
  have slash : ∀ word ∈ markers, word.head? = some '/' := by decide
  apply Text.trim_eq_self
  · intro c hc
    rw [List.head?_append, slash word hw] at hc
    cases hc
    decide
  · intro c hc
    obtain ⟨init, d, hd⟩ := (List.eq_nil_or_concat' name).resolve_left hne
    rw [hd, ← List.append_assoc, List.getLast?_concat] at hc
    cases hc
    exact hname c (by simp [hd])

theorem isMember_append {left : Text} (h : '/' ∉ left) (comment : Text) :
    isMember (left ++ '/' :: '/' :: comment) =
      ((Text.trim left).getLast? == some ';' && !Text.occurs "(" (Text.trim left)
        && ("0x" : Text).isPrefixOf (Text.trimStart comment)) := by
  have hcut : Text.cut "//" (left ++ '/' :: '/' :: comment) = some (left, comment) :=
    Text.cut_append h ['/'] comment
  simp only [isMember, hcut]

/-- A line end stands in no line. -/
structure IsLine (line : Text) : Prop where
  feed : '\n' ∉ line
  carriage : '\r' ∉ line

theorem IsLine.of_subset {line chars : Text} (h : line ⊆ chars) (hn : '\n' ∉ chars)
    (hr : '\r' ∉ chars) : IsLine line :=
  ⟨fun hm => hn (h hm), fun hm => hr (h hm)⟩

theorem IsLine.of_solid {line : Text} (h : ∀ c ∈ line, isBlank c = false) : IsLine line where
  feed hm := absurd (h _ hm) (by decide)
  carriage hm := absurd (h _ hm) (by decide)

theorem IsLine.append {a b : Text} (ha : IsLine a) (hb : IsLine b) : IsLine (a ++ b) where
  feed h := (List.mem_append.1 h).elim ha.feed hb.feed
  carriage h := (List.mem_append.1 h).elim ha.carriage hb.carriage

theorem lines_unlines {ls : List Text} (h : ∀ line ∈ ls, IsLine line) :
    Text.lines (Text.unlines ls) = ls :=
  Text.lines_unlines (fun line hl => (h line hl).feed) fun line hl => (h line hl).carriage

namespace Identifier

variable (i : Identifier)

theorem subset : i.text ⊆ letters ++ digits :=
  isIdentifier_subset i.form

theorem solid : ∀ c ∈ i.text, isBlank c = false :=
  fun _ hc => isBlank_of_identifier (i.subset hc)

theorem nonempty : i.text ≠ [] := by
  intro h
  have hform := i.form
  rw [h] at hform
  cases hform

theorem isPart : IsPart i.text :=
  ⟨i.nonempty, fun h => absurd (i.subset h) (by decide)⟩

theorem brace_not_mem : '\x7b' ∉ i.text :=
  fun h => absurd (i.subset h) (by decide)

theorem plain : ∀ c ∈ '=' :: Enumeration.stops, c ∉ i.text := by
  intro c hc hm
  have sign : ∀ c ∈ '=' :: Enumeration.stops, c ∉ letters ++ digits := by decide +kernel
  exact sign c hc (i.subset hm)

theorem solidEnd : i.text.getLast? ≠ some ' ' :=
  fun h => absurd (i.solid ' ' (List.mem_of_getLast? h)) (by decide)

def titlePart : Enumeration.TitlePart :=
  ⟨i.text, i.isPart, i.solid, i.brace_not_mem⟩

def memberName : Enumeration.Name :=
  ⟨i.text, i.nonempty, i.plain, i.solidEnd⟩

end Identifier

namespace EnumSection

/-- The characters of an enumeration other than its braces. -/
def inks : Text :=
  letters ++ digits ++ ['.', '/', '*', ' ', '=', ',']

theorem subset_inks (i : Identifier) : i.text ⊆ inks :=
  fun _ hc => List.mem_append_left _ (i.subset hc)

theorem display_subset (q : Qualifier) {chars : Text} (hp : q.package ⊆ chars)
    (hc : q.classFile ⊆ chars) (hn : q.name ⊆ chars) (hdot : '.' ∈ chars) : q.display ⊆ chars :=
  List.append_subset.2 ⟨hp, List.cons_subset.2 ⟨hdot,
    List.append_subset.2 ⟨hc, List.cons_subset.2 ⟨hdot, hn⟩⟩⟩⟩

variable (s : EnumSection)

theorem title_subset : s.title ⊆ inks :=
  List.append_subset.2 ⟨by decide, display_subset s.qualifier (subset_inks s.package)
    (subset_inks s.classFile) (subset_inks s.name) (by decide)⟩

theorem name_subset : "/*enum " ++ s.name.text ⊆ inks :=
  List.append_subset.2 ⟨by decide, subset_inks s.name⟩

theorem memberLine_subset (member : Identifier × Numeral digits) : memberLine member ⊆ inks := by
  have hvalue : member.2.text ⊆ inks := fun c hc =>
    List.mem_append_left _ (List.mem_append_right _ (member.2.form c hc))
  have hend : member.2.text ++ [','] ⊆ inks := List.append_subset.2 ⟨hvalue, by decide⟩
  exact List.append_subset.2 ⟨subset_inks member.1, List.cons_subset.2 ⟨by decide,
    List.cons_subset.2 ⟨by decide, List.cons_subset.2 ⟨by decide, hend⟩⟩⟩⟩

def block : List Text :=
  s.title :: ("/*enum " ++ s.name.text) :: "\x7b" :: (s.members.map memberLine ++ [footer])

theorem lines_eq_block : s.lines = s.block ++ [[]] := by
  simp [lines, block]

theorem isLine_of_subset {line : Text} (h : line ⊆ inks) : IsLine line :=
  .of_subset h (by decide) (by decide)

theorem isLine_block : ∀ line ∈ s.block, IsLine line := by
  intro line h
  simp only [block, List.mem_cons, List.mem_append, List.mem_map, List.not_mem_nil, or_false] at h
  rcases h with rfl | rfl | rfl | ⟨member, -, rfl⟩ | rfl
  · exact isLine_of_subset s.title_subset
  · exact isLine_of_subset s.name_subset
  · exact ⟨by decide, by decide⟩
  · exact isLine_of_subset (memberLine_subset member)
  · exact ⟨by decide, by decide⟩

theorem plain_value (value : Numeral digits) : ∀ c ∈ Enumeration.stops, c ∉ value.text := by
  intro c hc hm
  have sign : ∀ c ∈ Enumeration.stops, c ∉ digits := by decide
  exact sign c hc (value.form c hm)

def row (member : Identifier × Numeral digits) : Enumeration.Row :=
  ⟨some ⟨member.1.memberName, some ⟨member.2.text, plain_value member.2, true, true⟩⟩, false⟩

theorem text_row (member : Identifier × Numeral digits) :
    (row member).text = memberLine member ++ ['\n'] := by
  simp [row, Enumeration.Row.text, Enumeration.Row.content, Enumeration.Item.text,
    Enumeration.Assignment.gap, Enumeration.Assignment.right, Identifier.memberName, memberLine]

def subtitle : Text :=
  Text.unlines ["/*enum " ++ s.name.text]

theorem brace_not_mem_subtitle : '\x7b' ∉ s.subtitle := by
  apply Text.not_mem_unlines (by decide)
  intro line hl hm
  obtain rfl := List.mem_singleton.1 hl
  exact absurd (s.name_subset hm) (by decide)

theorem isBlank_feed : isBlank '\n' = true := by
  decide

/-- The block of an enumeration, whose body begins behind the line feed after its brace. -/
def layout : Enumeration.Layout where
  package := s.package.titlePart
  classFile := s.classFile.titlePart
  name := s.name.titlePart
  gap := '\n'
  blank := isBlank_feed
  front := s.subtitle
  braceless := s.brace_not_mem_subtitle
  rows := ⟨none, false⟩ :: s.members.map row
  closing := .ownLine
  rest := [';', '*', '/', '\n']

theorem solid_display : ∀ c ∈ s.qualifier.display, isBlank c = false :=
  s.layout.solid_display

theorem text_layout : s.layout.text = Text.unlines s.block := by
  have hrows : (s.members.map row).flatMap Enumeration.Row.text =
      Text.unlines (s.members.map memberLine) := by
    rw [Text.unlines, List.flatMap_map, List.flatMap_map]
    exact List.flatMap_congr fun member _ => text_row member
  have hfooter : footer = ['\x7d', ';', '*', '/'] := rfl
  have hbrace : ("\x7b" : Text) = ['\x7b'] := rfl
  have htitle : s.layout.title = s.title := rfl
  have hfeed : (⟨none, false⟩ : Enumeration.Row).text = ['\n'] := rfl
  rw [Enumeration.Layout.text, Enumeration.Layout.body, htitle]
  simp only [layout, block, subtitle, hrows, hfooter, hbrace, hfeed, Enumeration.Closing.text,
    Text.unlines_append, Text.unlines_cons, Text.unlines_nil, List.flatMap_cons, List.append_assoc,
    List.cons_append, List.nil_append, List.append_nil]

theorem members_layout : s.layout.members = s.members.map fun member => member.1.text := by
  have hnames : (s.members.map row).flatMap Enumeration.Row.names =
      s.members.map fun member => member.1.text := by
    rw [List.flatMap_map]
    exact List.map_eq_flatMap.symm
  rw [Enumeration.Layout.members, ← hnames]
  exact List.append_nil _

theorem parse_block :
    Enumeration.parse (Text.unlines s.block) =
      .ok ⟨s.qualifier, s.members.map fun member => member.1.text⟩ := by
  rw [← s.text_layout, s.layout.parse_text, s.members_layout]
  rfl

end EnumSection

namespace MemberColumns

variable (m : MemberColumns)

theorem append_eq_layout (comment : Text) :
    m.text ++ comment = Member.layout 1 m.type (columnWidth - m.type.text.length + 1) m.name.text
      m.ending (columnWidth - (m.name.text ++ m.ending.text).length)
      ('\t' :: '\t' :: comment) := by
  simp [text, Member.layout, List.rightpad, List.replicate_succ']

theorem gapWidth_le_gap : Member.gapWidth ≤ columnWidth - m.type.text.length + 1 := by
  have htype := m.typeFits
  rw [columnWidth, Member.gapWidth]
  omega

theorem gapWidth_le_room : 0 < columnWidth - (m.name.text ++ m.ending.text).length ∧
    Member.gapWidth ≤ m.ending.slack + (columnWidth - (m.name.text ++ m.ending.text).length) := by
  have hname := m.nameFits
  have hslack : m.ending.slack ≤ 2 := by cases m.ending <;> decide
  rw [List.length_append, columnWidth, Member.gapWidth]
  omega

theorem solid_clean : ∀ c ∈ Member.clean m.name.text, isBlank c = false :=
  fun c hc => m.name.solid c ((Member.clean_sublist m.name.text).subset hc)

theorem head_append (hn : Member.clean m.name.text ≠ []) (comment : Text) :
    Variable.head (m.text ++ comment) = .ok (m.type.scriptName, Member.clean m.name.text) := by
  rw [append_eq_layout]
  apply Member.head_layout m.gapWidth_le_gap (.of_solid hn m.solid_clean)
  · exact fun c hc => m.solid_clean c (List.mem_of_mem_head? hc)
  · exact fun c hc => m.solid_clean c (List.mem_of_getLast? hc)
  · exact .inl m.gapWidth_le_room

theorem exists_head_append (hn : Member.clean m.name.text = []) (comment : Text) :
    ∃ tail, Variable.head (m.text ++ '/' :: comment) = .ok (m.type.scriptName, '/' :: tail) := by
  rw [append_eq_layout]
  exact Member.exists_head_layout m.gapWidth_le_gap hn m.gapWidth_le_room.1 comment

def inks : Text :=
  letters ++ digits ++ ['\t', ' ', '<', '>', '*', ';', ':']

theorem rightpad_subset {text chars : Text} (h : text ⊆ chars) (hspace : ' ' ∈ chars) :
    text.rightpad columnWidth ' ' ⊆ chars := by
  refine List.append_subset.2 ⟨h, fun c hc => ?_⟩
  rw [List.eq_of_mem_replicate hc]
  exact hspace

theorem element_subset : m.type.element.text ⊆ inks := by
  have hword : m.type.element.word.text ⊆ inks := fun c hc =>
    List.mem_append_left _ (isIdentifier_subset m.identifier hc)
  have hkeyword : ∀ k : Member.Keyword, k.text ++ [' '] ⊆ inks := by
    intro k
    cases k <;> decide
  rw [Member.Element.text]
  refine List.append_subset.2 ⟨?_, List.append_subset.2 ⟨hword, ?_⟩⟩
  · cases m.type.element.keyword with
    | none => exact List.nil_subset _
    | some k => exact hkeyword k
  · cases m.type.element.star <;> decide

theorem type_subset : m.type.text ⊆ inks := by
  have helement := m.element_subset
  cases ht : m.type with
  | single e =>
    rw [ht] at helement
    exact helement
  | array e named =>
    rw [ht] at helement
    exact List.append_subset.2 ⟨by decide, List.cons_subset.2 ⟨by decide,
      List.cons_subset.2 ⟨by decide, List.append_subset.2 ⟨helement, by decide⟩⟩⟩⟩

theorem name_subset : m.name.text ++ m.ending.text ⊆ inks :=
  List.append_subset.2 ⟨fun _ hc => List.mem_append_left _ (m.name.subset hc),
    by cases m.ending <;> decide⟩

theorem text_subset : m.text ⊆ inks := by
  have htype := rightpad_subset m.type_subset (by decide)
  have hname := rightpad_subset m.name_subset (by decide)
  exact List.cons_subset.2 ⟨by decide, List.append_subset.2 ⟨htype,
    List.cons_subset.2 ⟨by decide, List.append_subset.2 ⟨hname, by decide⟩⟩⟩⟩

theorem not_mem_text {c : Char} (h : c ∉ inks) : c ∉ m.text :=
  fun hc => h (m.text_subset hc)

theorem getLast?_trim_text : (Text.trim m.text).getLast? = some ';' := by
  obtain ⟨front, hfront⟩ : ∃ front, m.ending.text = front ++ [';'] := by
    cases m.ending with
    | plain => exact ⟨[], rfl⟩
    | bit => exact ⟨[' ', ':', ' ', '1'], rfl⟩
  let start : Text :=
    '\t' :: (m.type.text.rightpad columnWidth ' ' ++ ' ' :: (m.name.text ++ front))
  let pad : Text :=
    List.replicate (columnWidth - (m.name.text ++ m.ending.text).length) ' ' ++ ['\t', '\t']
  have hpad : ∀ c ∈ pad, isBlank c = true := by
    have htabs : ∀ c ∈ ['\t', '\t'], isBlank c = true := by decide
    intro c hc
    rcases List.mem_append.1 hc with hc | hc
    · rw [List.eq_of_mem_replicate hc]
      decide
    · exact htabs c hc
  have htext : m.text = start ++ ';' :: pad := by
    simp [text, List.rightpad, hfront, start, pad]
  rw [htext]
  exact Text.getLast?_trim (by decide) hpad start

theorem isMember_append (remark : Text) : isMember (m.text ++ ("// 0x" ++ remark)) = true := by
  have hbracket : Text.occurs "(" (Text.trim m.text) = false := by
    apply Bool.eq_false_iff.2
    intro h
    exact m.not_mem_text (by decide) (Text.mem_of_mem_trim (Text.occurs_singleton.1 h))
  have hoffset :
      ("0x" : Text).isPrefixOf (Text.trimStart (' ' :: '0' :: 'x' :: remark)) = true := by
    have hspace : ∀ c ∈ [' '], isBlank c = true := by decide
    have htrim : Text.trimStart (' ' :: '0' :: 'x' :: remark) = '0' :: 'x' :: remark :=
      (Text.trimStart_append hspace _).trans (Text.trimStart_cons (by decide) _)
    rw [htrim]
    exact List.isPrefixOf_iff_prefix.2 (List.prefix_append ['0', 'x'] remark)
  have hcut := Header.isMember_append (m.not_mem_text (by decide)) (' ' :: '0' :: 'x' :: remark)
  rw [m.getLast?_trim_text, hbracket, hoffset] at hcut
  exact hcut

theorem exists_type_cons : ∃ c rest, m.type.text = c :: rest ∧ c ∈ letters ++ digits := by
  have helement : ∃ c rest, m.type.element.text = c :: rest ∧ c ∈ letters ++ digits := by
    obtain ⟨c, rest, hword⟩ := List.exists_cons_of_ne_nil m.type.element.word.nonempty
    rw [Member.Element.text]
    cases m.type.element.keyword with
    | none => exact ⟨c, _, by rw [hword]; rfl, isIdentifier_subset m.identifier (by simp [hword])⟩
    | some k => cases k <;> exact ⟨_, _, rfl, by decide⟩
  cases ht : m.type with
  | single e =>
    rw [ht] at helement
    exact helement
  | array e named => exact ⟨'T', _, rfl, by decide⟩

theorem not_marker_append (comment : Text) :
    ∀ word ∈ markers, ¬ word <+: Text.trim (m.text ++ comment) := by
  obtain ⟨c, rest, htype, hc⟩ := m.exists_type_cons
  have hline : ∃ more, m.text ++ comment = ['\t'] ++ c :: more := by
    rw [text, List.rightpad, htype]
    exact ⟨_, rfl⟩
  obtain ⟨more, hline⟩ := hline
  rw [hline]
  apply not_marker_of_head (by decide) (isBlank_of_identifier hc)
  rintro rfl
  exact absurd hc (by decide)

end MemberColumns

namespace MemberLine

variable (m : MemberLine)

theorem head_line : Variable.head m.line = .ok (m.type.scriptName, m.name.text) := by
  have hne : Member.clean m.name.text ≠ [] := by
    rw [m.tidy]
    exact m.name.nonempty
  rw [line, m.head_append hne, m.tidy]

def plainInks : Text :=
  MemberColumns.inks ++ ['/', '[', ']']

def offsetPiece : Text :=
  m.text ++ ("// 0x" ++ (m.offset.text ++ [' ']))

def sizePiece : Text :=
  "0x" ++ m.size.text

def maskPiece : Text :=
  " [0x" ++ (m.mask.text ++ (']' :: List.replicate m.room ' '))

theorem line_eq_pieces :
    m.line = m.offsetPiece ++ '(' :: (m.sizePiece ++ ')' :: (m.maskPiece ++
      '(' :: (Flag.row m.flags ++ ')' :: []))) := by
  unfold line comment offsetPiece sizePiece maskPiece
  simp

theorem numeral_subset (n : Numeral hexDigits) : n.text ⊆ plainInks := by
  intro c hc
  have hdigits : hexDigits ⊆ plainInks := by decide +kernel
  exact hdigits (n.form c hc)

theorem offsetPiece_subset : m.offsetPiece ⊆ plainInks :=
  List.append_subset.2 ⟨fun _ hc => List.mem_append_left _ (m.text_subset hc),
    List.append_subset.2 ⟨by decide, List.append_subset.2 ⟨numeral_subset _, by decide⟩⟩⟩

theorem sizePiece_subset : m.sizePiece ⊆ plainInks :=
  List.append_subset.2 ⟨by decide, numeral_subset _⟩

theorem maskPiece_subset : m.maskPiece ⊆ plainInks := by
  refine List.append_subset.2 ⟨by decide, List.append_subset.2 ⟨numeral_subset _,
    List.cons_subset.2 ⟨by decide, fun c hc => ?_⟩⟩⟩
  rw [List.eq_of_mem_replicate hc]
  decide

theorem isBracket_clean {text : Text} (h : text ⊆ plainInks) :
    ∀ c ∈ Member.clean text, Flag.isBracket c = false := by
  intro c hc
  have plain : ∀ c ∈ plainInks, Flag.isBracket c = false := by decide +kernel
  exact plain c (h ((Member.clean_sublist text).subset hc))

/-- The brackets of the comment tell where the flags stand. -/
theorem tokens_line : Flag.tokens (Member.clean m.line) = m.flags := by
  have hflags : ∀ flag ∈ m.flags, Flag.IsFlag flag := fun flag hf => (m.flagForm flag hf).1
  have hrow : ((Flag.row m.flags ++ ')' :: []).takeWhile fun c => !Flag.isBracket c) =
      Flag.row m.flags := by
    rw [List.takeWhile_append_of_pos, List.takeWhile_cons_of_neg (by decide), List.append_nil]
    intro c hc
    rw [Flag.isBracket_row hflags c hc]
    rfl
  rw [line_eq_pieces, Member.clean_append_separator (by decide) (by decide),
    Member.clean_append_separator (by decide) (by decide),
    Member.clean_append_separator (by decide) (by decide),
    Member.clean_append_separator (by decide) (by decide), Member.clean_nil,
    Flag.clean_row fun flag hf => (m.flagForm flag hf).2,
    Flag.tokens_append (isBracket_clean m.offsetPiece_subset) (isBracket_clean m.sizePiece_subset)
      (isBracket_clean m.maskPiece_subset) (by decide) (by decide) (by decide),
    hrow, Flag.tokens_row hflags]

theorem parse_line : (Variable.parse m.line).result = .ok m.var := by
  rw [Variable.parse, m.head_line, m.tokens_line]
  rfl

theorem exists_comment : ∃ remark, m.comment = "// 0x" ++ remark := by
  unfold comment
  simp only [List.append_assoc]
  exact ⟨_, rfl⟩

theorem isMember_line : isMember m.line = true := by
  obtain ⟨remark, hcomment⟩ := m.exists_comment
  rw [line, hcomment]
  exact m.isMember_append remark

theorem not_marker_line : ∀ word ∈ markers, ¬ word <+: Text.trim m.line :=
  m.not_marker_append m.comment

theorem not_mem_line {c : Char} (hb : isBlank c = true) (hc : c ∉ [' ', '|', '(', ')'])
    (hp : c ∉ plainInks) : c ∉ m.line := by
  have hrow : c ∉ Flag.row m.flags := by
    intro hm
    rcases Flag.mem_of_mem_row hm with hm | ⟨flag, hf, hm⟩
    · exact hc (List.mem_append_left ['(', ')'] hm)
    · have hsolid := (m.flagForm flag hf).1.solid c hm
      rw [Flag.isSeparator, hb, Bool.or_true] at hsolid
      cases hsolid
  have hends : c ≠ '(' ∧ c ≠ ')' := by
    simp only [List.mem_cons, not_or] at hc
    exact ⟨hc.2.2.1, hc.2.2.2.1⟩
  have hpieces : c ∉ m.offsetPiece ∧ c ∉ m.sizePiece ∧ c ∉ m.maskPiece :=
    ⟨fun h => hp (m.offsetPiece_subset h), fun h => hp (m.sizePiece_subset h),
      fun h => hp (m.maskPiece_subset h)⟩
  rw [line_eq_pieces]
  simp [hpieces, hends, hrow]

theorem isLine_line : IsLine m.line :=
  ⟨m.not_mem_line (by decide) (by decide) (by decide),
    m.not_mem_line (by decide) (by decide) (by decide)⟩

end MemberLine

end UnrealDecl.Header
