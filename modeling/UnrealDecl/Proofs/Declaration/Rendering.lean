import UnrealDecl.Declaration.Basic
import UnrealDecl.Proofs.Member.Clean
import UnrealDecl.Proofs.Member.Reading
import UnrealDecl.Proofs.Names

namespace UnrealDecl

namespace Enumeration

def memberRow (member : Text) : Text :=
  "    " ++ member ++ ","

def lastRow : Text :=
  "\x7d;"

def rows (e : Enumeration) : List Text :=
  ("enum " ++ e.name) :: "\x7b" :: (e.members.map memberRow ++ [lastRow, []])

theorem unlines_memberRow (members : List Text) :
    Text.unlines (members.map memberRow) = members.flatMap memberLine := by
  rw [Text.unlines, List.flatMap_map]
  apply List.flatMap_congr
  intro member _
  have hend : (",\n" : Text) = "," ++ ['\n'] := rfl
  change "    " ++ member ++ "," ++ ['\n'] = "    " ++ member ++ ",\n"
  simp only [hend, List.append_assoc]

theorem render_eq_unlines (e : Enumeration) : e.render = Text.unlines e.rows := by
  have hopen : ("\n\x7b\n" : Text) = ['\n', '\x7b', '\n'] := rfl
  have hbrace : ("\x7b" : Text) = ['\x7b'] := rfl
  have hclose : ("\x7d;\n\n" : Text) = Text.unlines [lastRow, []] := rfl
  change "enum " ++ e.name ++ "\n\x7b\n" ++ e.members.flatMap memberLine ++ "\x7d;\n\n" = _
  simp only [rows, Text.unlines_cons, Text.unlines_append, unlines_memberRow, hopen, hbrace, hclose,
    List.append_assoc, List.cons_append, List.nil_append]

theorem ne_lastRow (member : Text) : memberRow member ≠ lastRow := by
  intro h
  have hindent : (memberRow member).head? = some ' ' := rfl
  rw [h] at hindent
  exact absurd hindent (by decide)

theorem members_append_inj {members others : List Text} {rest more : List Text}
    (h : members.map memberRow ++ lastRow :: rest = others.map memberRow ++ lastRow :: more) :
    members = others ∧ rest = more := by
  induction members generalizing others with
  | nil =>
    cases others with
    | nil => exact ⟨rfl, (List.cons.inj h).2⟩
    | cons other others => exact absurd (List.cons.inj h).1.symm (ne_lastRow other)
  | cons member members ih =>
    cases others with
    | nil => exact absurd (List.cons.inj h).1 (ne_lastRow member)
    | cons other others =>
      obtain ⟨hrow, hrows⟩ := List.cons.inj h
      obtain ⟨rfl, hrest⟩ := ih hrows
      have hsame : member = other := List.append_cancel_left (List.append_cancel_right hrow)
      exact ⟨congrArg (· :: members) hsame, hrest⟩

/-- The lines of an enumeration tell it, and where they end. -/
theorem rows_append_inj {d e : Enumeration} {rest more : List Text}
    (h : d.rows ++ rest = e.rows ++ more) :
    d.name = e.name ∧ d.members = e.members ∧ rest = more := by
  simp only [rows, List.cons_append, List.append_assoc, List.nil_append] at h
  obtain ⟨htitle, h⟩ := List.cons.inj h
  obtain ⟨hmembers, hrest⟩ := members_append_inj (List.cons.inj h).2
  exact ⟨List.append_cancel_left htitle, hmembers, (List.cons.inj hrest).2⟩

theorem memberName_subset (line : Text) : memberName line ⊆ line := by
  have hbefore : ((Text.cut "=" line).map Prod.fst).getD line ⊆ line := by
    cases hcut : Text.cut "=" line with
    | none => exact List.Subset.refl line
    | some parts =>
      rw [Text.eq_of_cut hcut, List.append_assoc]
      exact List.subset_append_left _ _
  rw [memberName]
  split
  · exact fun c hc => hbefore (List.mem_of_mem_dropLast hc)
  · exact hbefore

theorem feed_not_mem_member {block member : Text} {e : Enumeration} (h : parse block = .ok e)
    (hm : member ∈ e.members) : '\n' ∉ member := by
  obtain ⟨-, body, -, hmembers⟩ := parse_eq_ok_iff.1 h
  rw [hmembers] at hm
  obtain ⟨line, hline, rfl⟩ := List.mem_map.1 hm
  have hfeed := Text.feed_not_mem_of_mem_lines (List.mem_filter.1 hline).1
  exact fun hc => hfeed (memberName_subset line hc)

theorem feed_not_mem_rows {block : Text} {e : Enumeration} (h : parse block = .ok e) :
    ∀ row ∈ e.rows, '\n' ∉ row := by
  intro row hrow
  have hname : '\n' ∉ e.name := fun hc => absurd (solid_name h _ hc) (by decide)
  simp only [rows, List.mem_cons, List.mem_append, List.mem_map, List.not_mem_nil, or_false] at hrow
  rcases hrow with rfl | rfl | ⟨member, hm, rfl⟩ | rfl | rfl
  · simp [hname]
  · decide
  · change '\n' ∉ "    " ++ member ++ ","
    simp [feed_not_mem_member h hm]
  · decide
  · exact List.not_mem_nil

end Enumeration

namespace Variable

def row (v : Variable) : Text :=
  (if v.modifiers.contains .edit then "var()" else "var")
    ++ v.modifiers.keywords.flatMap (fun keyword => ' ' :: keyword)
    ++ " " ++ v.typeName ++ " " ++ v.name ++ ";"

@[simp] theorem row_inClass (v : Variable) (owner : ClassFile) : (v.inClass owner).row = v.row :=
  rfl

theorem render_eq_row (v : Variable) : v.render = v.row ++ ['\n'] := by
  have hend : (";\n" : Text) = ";" ++ ['\n'] := rfl
  simp only [render, row, hend, List.append_assoc]

/-- The words of the declaration: `var` with or without brackets, the keywords, the type and the
name. -/
def parts (v : Variable) : List Text :=
  (if v.modifiers.contains .edit then "var()" else "var").toList
    :: (v.modifiers.keywords ++ [v.typeName, v.name])

theorem row_eq_join (v : Variable) : v.row = Text.join " " v.parts ++ ";" := by
  simp only [parts, Text.join_cons, row, List.flatMap_append, List.flatMap_cons, List.flatMap_nil,
    List.append_assoc, List.append_nil]
  rfl

theorem exists_core {line : Text} {v : Variable} (h : (parse line).result = .ok v) :
    ∃ w : Text, (v.typeName = w ∨ v.typeName = "array<" ++ w ++ ">") ∧
      ∀ c ∈ w, isBlank c = false ∧ c ∉ Member.signs := by
  obtain ⟨word, hsubject, -, hmapped⟩ :=
    TypeName.exists_subject (head_eq_ok_iff.1 (head_of_parse h)).1
  obtain ⟨-, hsolid, hpart⟩ := Text.mem_tokens (TypeName.mem_of_subject? hsubject)
  refine ⟨TypeName.mapped word, ?_, ?_⟩
  · rw [hmapped]
    split
    · exact .inr rfl
    · exact .inl rfl
  · intro c hc
    rcases TypeName.mem_of_mem_mapped hc with hc | ⟨entry, hentry, hc⟩
    · exact ⟨hsolid c hc, fun hsign => Member.not_mem_clean hsign line (hpart.subset hc)⟩
    · have hplain : ∀ entry ∈ TypeName.exact, ∀ c ∈ entry.2,
          isBlank c = false ∧ c ∉ Member.signs := by
        decide
      exact hplain entry hentry c hc

/-- What separates the words of declarations and ends the declarations. -/
def stops : Text :=
  " ;\n"

theorem stop_not_mem_parts {line : Text} {v : Variable} (h : (parse line).result = .ok v) {c : Char}
    (hc : c ∈ stops) (hname : c ∉ v.name) : ∀ part ∈ v.parts, c ∉ part := by
  have hkeyword : ∀ keyword ∈ v.modifiers.keywords, c ∉ keyword := by
    have hplain : ∀ c ∈ stops, ∀ m ∈ Modifier.all, ∀ keyword ∈ m.keyword, c ∉ keyword := by decide
    intro keyword hk
    obtain ⟨m, -, hm⟩ := List.mem_filterMap.1 hk
    exact hplain c hc m m.mem_all keyword hm
  have htype : c ∉ v.typeName := by
    have hstop : ∀ c ∈ stops, isBlank c = true ∨ c ∈ Member.signs := by decide
    have hframe : ∀ c ∈ stops, c ∉ ("array<" : Text) ∧ c ∉ (">" : Text) := by decide
    obtain ⟨w, hshape, hsolid⟩ := exists_core h
    have hw : c ∉ w := by
      intro hm
      obtain ⟨hblank, hsign⟩ := hsolid c hm
      rcases hstop c hc with hb | hs
      · exact absurd hb (by simp [hblank])
      · exact hsign hs
    rcases hshape with hshape | hshape
    · exact hshape ▸ hw
    · rw [hshape, List.mem_append, List.mem_append, not_or, not_or]
      exact ⟨⟨(hframe c hc).1, hw⟩, (hframe c hc).2⟩
  have hlead : ∀ c ∈ stops, c ∉ ("var()" : Text) ∧ c ∉ ("var" : Text) := by decide
  intro part hpart
  simp only [parts, List.mem_cons, List.mem_append, List.not_mem_nil, or_false] at hpart
  rcases hpart with rfl | hk | rfl | rfl
  · split
    · exact (hlead c hc).1
    · exact (hlead c hc).2
  · exact hkeyword part hk
  · exact htype
  · exact hname

theorem not_mem_name {line : Text} {v : Variable} (h : (parse line).result = .ok v) {c : Char}
    (hc : c ∉ Member.clean line) : c ∉ v.name := by
  have hname := (head_eq_ok_iff.1 (head_of_parse h)).2
  exact fun hm => hc ((Member.infix_of_name? hname).subset hm)

theorem stop_not_mem_join {line : Text} {v : Variable} (h : (parse line).result = .ok v) {c : Char}
    (hc : c ∈ stops) (hspace : c ≠ ' ') (hclean : c ∉ Member.clean line) :
    c ∉ Text.join " " v.parts := by
  intro hm
  rcases Text.mem_of_mem_join hm with hm | ⟨part, hpart, hm⟩
  · exact hspace (List.mem_singleton.1 hm)
  · exact stop_not_mem_parts h hc (not_mem_name h hclean) part hpart hm

theorem feed_not_mem_join {line : Text} {v : Variable} (hl : '\n' ∉ line)
    (h : (parse line).result = .ok v) : '\n' ∉ Text.join " " v.parts :=
  stop_not_mem_join h (by decide) (by decide) fun hm => hl ((Member.clean_sublist line).subset hm)

theorem feed_not_mem_row {line : Text} {v : Variable} (hl : '\n' ∉ line)
    (h : (parse line).result = .ok v) : '\n' ∉ v.row := by
  rw [row_eq_join, List.mem_append, not_or]
  exact ⟨feed_not_mem_join hl h, by decide⟩

end Variable

namespace Declaration

def rows : Declaration → List Text
  | member v => [v.row]
  | enumeration e => e.rows

/-- What the lines of a declaration tell: the name and the members of an enumeration, or the line of
a variable. -/
def outline : Declaration → (Text × List Text) ⊕ Text
  | member v => .inr v.render
  | enumeration e => .inl (e.name, e.members)

theorem render_eq_unlines (d : Declaration) : d.render = Text.unlines d.rows := by
  cases d with
  | member v =>
    rw [rows, Text.unlines_cons, Text.unlines_nil]
    exact v.render_eq_row
  | enumeration e => exact e.render_eq_unlines

theorem rows_ne_nil (d : Declaration) : d.rows ≠ [] := by
  cases d <;> exact List.cons_ne_nil _ _

theorem row_ne_title (v : Variable) (name : Text) : v.row ≠ "enum " ++ name := by
  intro h
  have hvar : v.row.head? = some 'v' := by
    rw [Variable.row]
    split <;> rfl
  have henum : ("enum " ++ name : Text).head? = some 'e' := rfl
  rw [h, henum] at hvar
  exact absurd hvar (by decide)

theorem rows_append_inj {d e : Declaration} {rest more : List Text}
    (h : d.rows ++ rest = e.rows ++ more) : d.outline = e.outline ∧ rest = more := by
  cases d with
  | member v =>
    cases e with
    | member w =>
      obtain ⟨hrow, hrest⟩ := List.cons.inj h
      rw [outline, outline, v.render_eq_row, w.render_eq_row, hrow]
      exact ⟨rfl, hrest⟩
    | enumeration e => exact absurd (List.cons.inj h).1 (row_ne_title v e.name)
  | enumeration d =>
    cases e with
    | member v => exact absurd (List.cons.inj h).1.symm (row_ne_title v d.name)
    | enumeration e =>
      obtain ⟨hname, hmembers, hrest⟩ := Enumeration.rows_append_inj h
      rw [outline, outline, hname, hmembers]
      exact ⟨rfl, hrest⟩

theorem outlines_eq_of_rows {ds es : List Declaration} (h : ds.flatMap rows = es.flatMap rows) :
    ds.map outline = es.map outline := by
  induction ds generalizing es with
  | nil =>
    cases es with
    | nil => rfl
    | cons e es => exact absurd (List.append_eq_nil_iff.1 h.symm).1 e.rows_ne_nil
  | cons d ds ih =>
    cases es with
    | nil => exact absurd (List.append_eq_nil_iff.1 h).1 d.rows_ne_nil
    | cons e es =>
      rw [List.flatMap_cons, List.flatMap_cons] at h
      obtain ⟨hd, hds⟩ := rows_append_inj h
      rw [List.map_cons, List.map_cons, hd, ih hds]

/-- No line feed stands in a line of the declaration. -/
def Legible (d : Declaration) : Prop :=
  ∀ row ∈ d.rows, '\n' ∉ row

theorem flatMap_render (ds : List Declaration) :
    ds.flatMap render = Text.unlines (ds.flatMap rows) := by
  rw [Text.unlines, List.flatMap_assoc]
  apply List.flatMap_congr
  intro d _
  exact d.render_eq_unlines

/-- The text of legible declarations tells all of them. -/
theorem outlines_eq_of_render {ds es : List Declaration} (hds : ∀ d ∈ ds, d.Legible)
    (hes : ∀ e ∈ es, e.Legible) (h : ds.flatMap render = es.flatMap render) :
    ds.map outline = es.map outline := by
  have hfeed : ∀ {ds : List Declaration}, (∀ d ∈ ds, d.Legible) →
      ∀ row ∈ ds.flatMap rows, '\n' ∉ row := by
    intro ds hds row hrow
    obtain ⟨d, hd, hrow⟩ := List.mem_flatMap.1 hrow
    exact hds d hd row hrow
  rw [flatMap_render, flatMap_render] at h
  exact outlines_eq_of_rows (Text.unlines_inj (hfeed hds) (hfeed hes) h)

end Declaration

end UnrealDecl
