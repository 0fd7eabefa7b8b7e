import UnrealDecl.Header.Line
import UnrealDecl.Proofs.Declaration.Rendering
import UnrealDecl.Proofs.Text.Lines

namespace UnrealDecl.Enumeration

/-- A body reaches from the first opening brace to the first closing brace behind it. -/
theorem body?_eq_some_iff {block body : Text} :
    body? block = some body ↔ ∃ front, '\x7b' ∉ front ∧ '\x7d' ∉ body ∧
      front ++ '\x7b' :: (body ++ ['\x7d']) <+: block := by
  rw [body?]
  constructor
  · intro h
    cases hopen : Text.cut "\x7b" block with
    | none =>
      rw [hopen] at h
      cases h
    | some parts =>
      obtain ⟨front, rest⟩ := parts
      rw [hopen] at h
      obtain ⟨⟨found, tail⟩, hclose, rfl⟩ := Option.map_eq_some_iff.1 h
      refine ⟨front, Text.not_mem_of_cut hopen, Text.not_mem_of_cut hclose, tail, ?_⟩
      rw [Text.eq_of_cut hopen, Text.eq_of_cut hclose]
      simp
  · rintro ⟨front, hfront, hbody, tail, rfl⟩
    have hopen : Text.cut "\x7b" (front ++ '\x7b' :: (body ++ ['\x7d']) ++ tail) =
        some (front, body ++ '\x7d' :: tail) := by
      simpa using Text.cut_append hfront [] (body ++ '\x7d' :: tail)
    rw [hopen]
    exact congrArg (Option.map Prod.fst) (Text.cut_append hbody [] tail)

theorem qualifierOf_congr {block other : Text}
    (h : (Text.lines block).head? = (Text.lines other).head?) :
    qualifierOf block = qualifierOf other := by
  rw [qualifierOf, qualifierOf]
  cases hblock : Text.lines block with
  | nil =>
    rw [hblock] at h
    rw [List.head?_eq_none_iff.1 h.symm]
  | cons header later =>
    rw [hblock] at h
    obtain ⟨rest, hother⟩ := List.head?_eq_some_iff.1 h.symm
    rw [hother]

theorem words_title {dotted : Text} (hne : dotted ≠ []) (h : ∀ c ∈ dotted, isBlank c = false) :
    Text.words (Header.enumMarker ++ dotted) = [("//" : Text), ("Enum" : Text), dotted] := by
  have hmarker : Header.enumMarker ++ dotted = "//" ++ ' ' :: ("Enum" ++ ' ' :: dotted) := rfl
  rw [hmarker, Text.words, Text.tokens_token (by decide) (by decide) (by decide),
    Text.tokens_token (by decide) (by decide) (by decide), Text.tokens_eq_singleton hne h]

theorem qualifierOf_title {q : Qualifier} {c : Char} (hq : Qualifier.parse? q.display = some q)
    (h : ∀ d ∈ q.display, isBlank d = false) (hc : isBlank c = true) (tail : Text) :
    qualifierOf (Header.enumMarker ++ q.display ++ c :: tail) = .ok q := by
  have hne : q.display ≠ [] := by simp [Qualifier.display]
  have hfeed : '\n' ∉ Header.enumMarker ++ q.display := by
    intro hm
    rcases List.mem_append.1 hm with hm | hm
    · exact absurd hm (by decide)
    · exact absurd (h _ hm) (by decide)
  obtain ⟨header, later, more, hlines, hwords⟩ := Text.exists_lines_title hfeed hc tail
  rw [words_title hne h] at hwords
  simp only [qualifierOf, hlines, hwords, List.cons_append, List.nil_append,
    List.getElem?_cons_succ, List.getElem?_cons_zero, hq]

theorem memberName_bare {name : Text} (h : '=' ∉ name) :
    memberName name = if name.getLast? = some ' ' then name.dropLast else name := by
  have hcut : Text.cut "=" name = none :=
    Text.cut_eq_none_iff.2 (mt (List.singleton_infix_iff _ _).1 h)
  rw [memberName, hcut]
  rfl

theorem memberName_assigned {before : Text} (h : '=' ∉ before) (value : Text) :
    memberName (before ++ '=' :: value) = memberName before := by
  have hcut : Text.cut "=" (before ++ '=' :: value) = some (before, value) :=
    Text.cut_append h [] value
  rw [memberName_bare h, memberName, hcut]
  rfl

def membersOf (body : Text) : List Text :=
  ((Text.lines body).filter fun line => !line.isEmpty).map memberName

theorem filter_cons_of_ne_nil {line : Text} (h : line ≠ []) (later : List Text) :
    (line :: later).filter (fun line => !line.isEmpty) =
      line :: later.filter fun line => !line.isEmpty :=
  List.filter_cons_of_pos (by simpa using h)

/-- The characters that a body cannot have within one of its lines. -/
def stops : Text :=
  ['\x7d', '\n', '\r']

/-- A name that a line of a body can declare. -/
structure Name where
  text : Text
  nonempty : text ≠ []
  plain : ∀ c ∈ '=' :: stops, c ∉ text
  solidEnd : text.getLast? ≠ some ' '

/-- A value that a member is given, perhaps with a space on both sides of the equals sign and a
comma behind it. -/
structure Assignment where
  value : Text
  plain : ∀ c ∈ stops, c ∉ value
  spaced : Bool
  comma : Bool

namespace Assignment

def gap (a : Assignment) : Text :=
  if a.spaced then [' '] else []

def right (a : Assignment) : Text :=
  a.gap ++ a.value ++ if a.comma then [','] else []

end Assignment

structure Item where
  name : Name
  assignment : Option Assignment

def Item.text (i : Item) : Text :=
  match i.assignment with
  | none => i.name.text
  | some a => i.name.text ++ a.gap ++ '=' :: a.right

/-- A line of a body, and whether a carriage return stands in front of its line feed. -/
structure Row where
  item : Option Item
  returned : Bool

namespace Row

def content (r : Row) : Text :=
  (r.item.map Item.text).getD []

def text (r : Row) : Text :=
  r.content ++ if r.returned then ['\r', '\n'] else ['\n']

def names (r : Row) : List Text :=
  (r.item.map fun i => i.name.text).toList

end Row

/-- What stands between the last line end of a body and the brace that closes it. -/
inductive Closing
  | ownLine
  | behind (item : Item)
  | spaced (name : Name)

namespace Closing

def text : Closing → Text
  | ownLine => []
  | behind item => item.text
  | spaced name => name.text ++ [' ']

def names : Closing → List Text
  | ownLine => []
  | behind item => [item.name.text]
  | spaced name => [name.text]

end Closing

/-- A part of a full name that can stand in a title. -/
structure TitlePart where
  text : Text
  isPart : IsPart text
  solid : ∀ c ∈ text, isBlank c = false
  braceless : '\x7b' ∉ text

/-- The text of a block: `gap` ends the full name, and `front` is what stands between it and the
body. -/
structure Layout where
  package : TitlePart
  classFile : TitlePart
  name : TitlePart
  gap : Char
  blank : isBlank gap = true
  front : Text
  braceless : '\x7b' ∉ front
  rows : List Row
  closing : Closing
  rest : Text

namespace Layout

def qualifier (b : Layout) : Qualifier :=
  ⟨b.package.text, b.classFile.text, b.name.text⟩

def title (b : Layout) : Text :=
  Header.enumMarker ++ b.qualifier.display

def body (b : Layout) : Text :=
  b.rows.flatMap Row.text ++ b.closing.text

def text (b : Layout) : Text :=
  b.title ++ b.gap :: (b.front ++ '\x7b' :: (b.body ++ '\x7d' :: b.rest))

def members (b : Layout) : List Text :=
  b.rows.flatMap Row.names ++ b.closing.names

end Layout

namespace Name

variable (n : Name)

theorem equals_not_mem : '=' ∉ n.text :=
  n.plain '=' (.head _)

theorem stop_not_mem {c : Char} (hc : c ∈ stops) : c ∉ n.text :=
  n.plain c (.tail _ hc)

theorem memberName_text : memberName n.text = n.text := by
  rw [memberName_bare n.equals_not_mem, if_neg n.solidEnd]

theorem memberName_spaced : memberName (n.text ++ [' ']) = n.text := by
  have hequals : '=' ∉ n.text ++ [' '] := by
    simp [n.equals_not_mem]
  rw [memberName_bare hequals, List.getLast?_concat, if_pos rfl, List.dropLast_concat]

end Name

theorem Assignment.stop_not_mem_right (a : Assignment) {c : Char} (hc : c ∈ stops) :
    c ∉ a.right := by
  have hplain := a.plain c hc
  have hspace : c ≠ ' ' ∧ c ≠ ',' := by
    constructor <;> rintro rfl <;> exact absurd hc (by decide)
  rw [Assignment.right, Assignment.gap]
  split <;> split <;> simp [hplain, hspace]

namespace Item

variable (i : Item)

theorem text_ne_nil : i.text ≠ [] := by
  rw [text]
  split
  · exact i.name.nonempty
  · simp

theorem stop_not_mem {c : Char} (hc : c ∈ stops) : c ∉ i.text := by
  have hname := i.name.stop_not_mem hc
  rw [text]
  split
  · exact hname
  · rename_i a _
    have hright := a.stop_not_mem_right hc
    have hsigns : c ≠ ' ' ∧ c ≠ '=' := by
      constructor <;> rintro rfl <;> exact absurd hc (by decide)
    rw [Assignment.gap]
    split <;> simp [hname, hright, hsigns]

/-- However a member is written, its line declares its name. -/
theorem memberName_text : memberName i.text = i.name.text := by
  rw [text]
  split
  · exact i.name.memberName_text
  · rename_i a _
    rw [Assignment.gap]
    split
    · have hequals : '=' ∉ i.name.text ++ [' '] := by
        simp [i.name.equals_not_mem]
      rw [memberName_assigned hequals, i.name.memberName_spaced]
    · rw [List.append_nil, memberName_assigned i.name.equals_not_mem, i.name.memberName_text]

end Item

namespace Row

variable (r : Row)

theorem stop_not_mem_content {c : Char} (hc : c ∈ stops) : c ∉ r.content := by
  rw [content]
  cases r.item with
  | none => exact List.not_mem_nil
  | some i => exact i.stop_not_mem hc

theorem lines_append (rest : Text) :
    Text.lines (r.text ++ rest) = r.content :: Text.lines rest := by
  have hfeed : '\n' ∉ r.content := r.stop_not_mem_content (by decide)
  rw [text]
  split
  · have hreturned : '\n' ∉ r.content ++ ['\r'] := by
      simp [hfeed]
    have hline := Text.lines_append_feed hreturned rest
    rw [Text.closeLine_concat_return] at hline
    simpa using hline
  · have hline := Text.lines_append_feed hfeed rest
    rw [Text.closeLine_reverse (r.stop_not_mem_content (by decide))] at hline
    simpa using hline

theorem membersOf_append (rest : Text) :
    membersOf (r.text ++ rest) = r.names ++ membersOf rest := by
  rw [membersOf, r.lines_append, membersOf, content, names]
  cases r.item with
  | none => rfl
  | some i =>
    rw [Option.map_some, Option.getD_some, filter_cons_of_ne_nil i.text_ne_nil, List.map_cons,
      i.memberName_text]
    rfl

end Row

theorem membersOf_rows (rows : List Row) (rest : Text) :
    membersOf (rows.flatMap Row.text ++ rest) = rows.flatMap Row.names ++ membersOf rest := by
  induction rows with
  | nil => rfl
  | cons r rows ih =>
    rw [List.flatMap_cons, List.flatMap_cons, List.append_assoc, r.membersOf_append, ih,
      List.append_assoc]

theorem membersOf_line {line : Text} (hne : line ≠ []) (h : '\n' ∉ line) :
    membersOf line = [memberName line] := by
  rw [membersOf, Text.lines_eq_singleton hne h, filter_cons_of_ne_nil hne]
  rfl

namespace Closing

theorem stop_not_mem (e : Closing) {c : Char} (hc : c ∈ stops) : c ∉ e.text := by
  cases e with
  | ownLine => exact List.not_mem_nil
  | behind i => exact i.stop_not_mem hc
  | spaced n =>
    have hspace : c ≠ ' ' := by
      rintro rfl
      exact absurd hc (by decide)
    simp [text, n.stop_not_mem hc, hspace]

theorem membersOf_text (e : Closing) : membersOf e.text = e.names := by
  have hfeed : '\n' ∉ e.text := e.stop_not_mem (by decide)
  cases e with
  | ownLine => rfl
  | behind i =>
    rw [text, membersOf_line i.text_ne_nil hfeed, i.memberName_text]
    rfl
  | spaced n =>
    have hne : n.text ++ [' '] ≠ [] := by simp
    rw [text] at hfeed
    rw [text, membersOf_line hne hfeed, n.memberName_spaced]
    rfl

end Closing

namespace Layout

variable (b : Layout)

theorem solid_display : ∀ c ∈ b.qualifier.display, isBlank c = false := by
  have hdot : isBlank '.' = false := by decide
  intro c hc
  simp only [Qualifier.display, qualifier, List.mem_append, List.mem_cons] at hc
  rcases hc with hc | rfl | hc | rfl | hc
  · exact b.package.solid c hc
  · exact hdot
  · exact b.classFile.solid c hc
  · exact hdot
  · exact b.name.solid c hc

theorem qualifierOf_text : qualifierOf b.text = .ok b.qualifier :=
  qualifierOf_title (Qualifier.parse?_display b.package.isPart b.classFile.isPart b.name.isPart)
    b.solid_display b.blank _

theorem brace_not_mem_title : '\x7b' ∉ b.title := by
  have hmarker : '\x7b' ∉ Header.enumMarker := by decide
  simp [title, Qualifier.display, qualifier, hmarker, b.package.braceless, b.classFile.braceless,
    b.name.braceless]

theorem brace_not_mem_body : '\x7d' ∉ b.body := by
  have hstop : '\x7d' ∈ stops := by decide
  rw [body, List.mem_append, List.mem_flatMap, not_or]
  constructor
  · rintro ⟨r, -, hr⟩
    have hcontent := r.stop_not_mem_content hstop
    rw [Row.text] at hr
    split at hr <;> simp [hcontent] at hr
  · exact b.closing.stop_not_mem hstop

theorem body?_text : body? b.text = some b.body := by
  have hgap : '\x7b' ≠ b.gap := by
    intro h
    have hblank := b.blank
    rw [← h] at hblank
    exact absurd hblank (by decide)
  refine body?_eq_some_iff.2 ⟨b.title ++ b.gap :: b.front, ?_, b.brace_not_mem_body, b.rest, ?_⟩
  · simp [b.brace_not_mem_title, hgap, b.braceless]
  · simp [text]

theorem parse_text : parse b.text = .ok ⟨b.qualifier, b.members⟩ := by
  apply parse_eq_ok_iff.2
  refine ⟨b.qualifierOf_text, b.body, b.body?_text, ?_⟩
  change b.members = membersOf b.body
  rw [body, membersOf_rows, Closing.membersOf_text]
  rfl

/-- A block is read as its full name and the names of its members in order, however its lines are
written, and is rendered with one line for each of them. -/
theorem read_back :
    parse b.text = .ok ⟨b.qualifier, b.members⟩ ∧
      (⟨b.qualifier, b.members⟩ : Enumeration).render =
        Text.unlines (("enum " ++ b.name.text) :: "\x7b" ::
          (b.members.map (fun member => ("    " ++ member ++ "," : Text)) ++
            ([("\x7d;" : Text), []] : List Text))) :=
  ⟨b.parse_text, render_eq_unlines _⟩

theorem read_back_axis :
    ∃ b : Layout,
      b.text = "// Enum Core.Object.EAxis 0x4\r\n/*enum EAxis\n" ++
        "\x7b\r\nX=0,\n\r\nY\nX = a=b\nZ \x7d;*/" ∧
      parse b.text = .ok ⟨⟨"Core", "Object", "EAxis"⟩, ["X", "Y", "X", "Z"]⟩ := by
  let x : Name := ⟨"X", by decide, by decide, by decide⟩
  let y : Name := ⟨"Y", by decide, by decide, by decide⟩
  let z : Name := ⟨"Z", by decide, by decide, by decide⟩
  let b : Layout :=
    { package := ⟨"Core", ⟨by decide, by decide⟩, by decide, by decide⟩
      classFile := ⟨"Object", ⟨by decide, by decide⟩, by decide, by decide⟩
      name := ⟨"EAxis", ⟨by decide, by decide⟩, by decide, by decide⟩
      gap := ' '
      blank := by decide
      front := "0x4\r\n/*enum EAxis\n"
      braceless := by decide
      rows := [⟨none, true⟩, ⟨some ⟨x, some ⟨"0", by decide, false, true⟩⟩, false⟩, ⟨none, true⟩,
        ⟨some ⟨y, none⟩, false⟩, ⟨some ⟨x, some ⟨"a=b", by decide, true, false⟩⟩, false⟩]
      closing := .spaced z
      rest := ";*/" }
  exact ⟨b, by decide +kernel, b.read_back.1⟩

end Layout

end UnrealDecl.Enumeration
