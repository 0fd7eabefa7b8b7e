import UnrealDecl.Proofs.Member.Clean
import UnrealDecl.Proofs.Member.Reading

namespace UnrealDecl

namespace Member

/-- A word that a member line can have as its type. -/
structure TypeWord where
  text : Text
  nonempty : text ≠ []
  solid : ∀ c ∈ text, isBlank c = false
  tidy : clean text = text
  notArray : text ≠ TypeName.array
  notDelegate : text ≠ TypeName.delegate

theorem TypeWord.base_eq (w : TypeWord) :
    TypeName.base w.text = .ok (.named (TypeName.mapped w.text)) := by
  rw [TypeName.base, if_neg w.notDelegate, if_neg w.notArray, TypeName.mapped]
  cases TypeName.exact.lookup w.text with
  | some name => rfl
  | none => simp [w.nonempty]

/-- What a header writes before the word of a type. -/
inductive Keyword
  | ofClass | ofStruct | ofUnsigned
deriving DecidableEq, Repr

def Keyword.text : Keyword → Text
  | ofClass => "class"
  | ofStruct => "struct"
  | ofUnsigned => "unsigned"

theorem Keyword.clean_text (k : Keyword) : clean k.text = [] := by
  cases k <;> decide +kernel

/-- A type that is not an array. -/
structure Element where
  keyword : Option Keyword := none
  word : TypeWord
  star : Bool := false

namespace Element

def text (e : Element) : Text :=
  (match e.keyword with
    | some k => k.text ++ [' ']
    | none => []) ++ (e.word.text ++ if e.star then ['*'] else [])

/-- What is left of a spelling in a clean line. -/
def column (e : Element) : Text :=
  if e.keyword.isSome then ' ' :: e.word.text else e.word.text

theorem clean_text (e : Element) : clean e.text = e.column := by
  have hword : clean (e.word.text ++ if e.star then ['*'] else []) = e.word.text := by
    cases e.star with
    | false => rw [if_neg Bool.false_ne_true, List.append_nil, e.word.tidy]
    | true =>
      have hstar : clean ['*'] = [] := by decide
      rw [if_pos rfl, clean_append_cons (by decide), e.word.tidy, hstar, List.append_nil]
  rw [text, column]
  cases e.keyword with
  | none => simpa using hword
  | some k =>
    have hspace : k.text ++ [' '] ++ (e.word.text ++ if e.star then ['*'] else []) =
        k.text ++ ' ' :: (e.word.text ++ if e.star then ['*'] else []) := by simp
    rw [hspace, clean_append_cons (by decide), k.clean_text, clean_cons (by decide),
      if_neg (by decide), hword]
    rfl

theorem count_column_le (e : Element) : e.column.count ' ' ≤ 1 := by
  have hword : e.word.text.count ' ' = 0 := by
    apply List.count_eq_zero.2
    intro h
    exact absurd (e.word.solid ' ' h) (by decide)
  rw [column]
  split
  · rw [List.count_cons_self, hword]
  · omega

theorem exists_column (e : Element) : ∃ blank, (∀ c ∈ blank, isBlank c = true) ∧
    e.column = blank ++ e.word.text := by
  rw [column]
  split
  · exact ⟨[' '], by decide, rfl⟩
  · exact ⟨[], by simp, rfl⟩

end Element

/-- The type of a member. -/
inductive Spelling
  | single (e : Element)
  | array (e : Element) (named : Text.occurs TypeName.padding e.word.text = false)

namespace Spelling

def element : Spelling → Element
  | single e => e
  | array e _ => e

def text : Spelling → Text
  | single e => e.text
  | array e _ => TypeName.array ++ '<' :: ' ' :: (e.text ++ [' ', '>'])

def scriptName : Spelling → Text
  | single e => TypeName.mapped e.word.text
  | array e _ => "array<" ++ TypeName.mapped e.word.text ++ ">"

def column : Spelling → Text
  | single e => e.column
  | array e _ => TypeName.array ++ ' ' :: e.column

/-- How many spaces a spelling leaves at its end in a clean line. -/
def slack : Spelling → Nat
  | single _ => 0
  | array _ _ => 1

theorem clean_text (s : Spelling) : clean s.text = s.column ++ List.replicate s.slack ' ' := by
  cases s with
  | single e =>
    rw [text, e.clean_text]
    exact (List.append_nil _).symm
  | array e named =>
    have harray : clean TypeName.array = TypeName.array := by decide +kernel
    have hend : clean [' ', '>'] = [' '] := by decide
    rw [text, clean_append_cons (by decide), harray, clean_cons (by decide), if_pos (by decide),
      clean_cons (by decide), if_neg (by decide), clean_append_cons (by decide), e.clean_text, hend,
      column, List.append_assoc]
    rfl

theorem count_column_lt (s : Spelling) : s.column.count ' ' < gapWidth := by
  cases s with
  | single e => exact Nat.lt_of_le_of_lt e.count_column_le (by decide)
  | array e named =>
    have harray : TypeName.array.count ' ' = 0 := by decide
    have hcount := e.count_column_le
    rw [column, List.count_append, harray, List.count_cons_self, gapWidth]
    omega

theorem exists_column (s : Spelling) : ∃ front, s.column = front ++ s.element.word.text := by
  obtain ⟨blank, -, hcolumn⟩ := s.element.exists_column
  cases s with
  | single e => exact ⟨blank, hcolumn⟩
  | array e named =>
    refine ⟨TypeName.array ++ ' ' :: blank, ?_⟩
    rw [column, show e.column = blank ++ e.word.text from hcolumn, List.append_assoc]
    rfl

theorem isColumn {margin : Text} (hm : ' ' ∉ margin) (s : Spelling) :
    IsColumn (margin ++ s.column) := by
  constructor
  · apply narrow_of_count
    rw [List.count_append, List.count_eq_zero.2 hm, Nat.zero_add]
    exact s.count_column_lt
  · obtain ⟨front, hcolumn⟩ := s.exists_column
    obtain ⟨init, c, hword⟩ :=
      (List.eq_nil_or_concat' s.element.word.text).resolve_left s.element.word.nonempty
    have hc : c ≠ ' ' := by
      rintro rfl
      exact absurd (s.element.word.solid ' ' (by simp [hword])) (by decide)
    exact ⟨margin ++ (front ++ init), c, by rw [hcolumn, hword]; simp, hc⟩

theorem words_column (e : Element) {c : Char} (hc : isBlank c = true) (rest : Text) :
    Text.words (e.column ++ c :: rest) = e.word.text :: Text.words rest := by
  obtain ⟨blank, hblank, hcolumn⟩ := e.exists_column
  rw [hcolumn, List.append_assoc, Text.words, Text.tokens_append_of_sep hblank,
    Text.tokens_token e.word.nonempty e.word.solid hc]
  rfl

theorem ofWords_column (s : Spelling) {margin : Text} (hm : ∀ c ∈ margin, isBlank c = true)
    {c : Char} (hc : isBlank c = true) (rest : Text) :
    TypeName.ofWords (Text.words (margin ++ (s.column ++ c :: rest))) = .ok s.scriptName := by
  rw [Text.words, Text.tokens_append_of_sep hm, ← Text.words]
  cases s with
  | single e =>
    rw [column, words_column e hc]
    simp only [TypeName.ofWords, e.word.base_eq]
    rfl
  | array e named =>
    have hsolid : ∀ d ∈ TypeName.array, isBlank d = false := by decide
    have hwords : Text.words (column (array e named) ++ c :: rest) =
        TypeName.array :: e.word.text :: Text.words rest := by
      rw [column, List.append_assoc, List.cons_append, Text.words,
        Text.tokens_token (by decide) hsolid (by decide), ← Text.words, words_column e hc]
    rw [hwords]
    simp only [TypeName.ofWords, TypeName.base_array, named, e.word.base_eq, Bool.false_eq_true,
      if_false]
    rfl

end Spelling

/-- What a header writes after the name of a member. -/
inductive Ending
  | plain | bit
deriving DecidableEq, Repr

namespace Ending

def text : Ending → Text
  | plain => [';']
  | bit => [' ', ':', ' ', '1', ';']

def slack : Ending → Nat
  | plain => 0
  | bit => 2

theorem clean_append (e : Ending) (name : Text) :
    clean (name ++ e.text) = clean name ++ List.replicate e.slack ' ' := by
  cases e with
  | plain =>
    have hend : clean [';'] = [] := by decide
    rw [text, clean_append_cons (by decide), hend]
    rfl
  | bit =>
    have hend : clean [' ', ':', ' ', '1', ';'] = [' ', ' '] := by decide
    rw [text, clean_append_cons (by decide), hend]
    rfl

end Ending

theorem clean_replicate {c : Char} (hk : ∀ word ∈ keywords, c ∉ word) (hs : c ∉ signs) (n : Nat)
    (rest : Text) : clean (List.replicate n c ++ rest) = List.replicate n c ++ clean rest := by
  induction n with
  | zero => rw [List.replicate_zero, List.nil_append, List.nil_append]
  | succ n ih =>
    rw [List.replicate_succ, List.cons_append, clean_cons hk, if_neg hs, ih]
    rfl

/-- A member line: tabs, the type, spaces, the name with its ending, spaces, and the rest. -/
def layout (tabs : Nat) (type : Spelling) (gap : Nat) (name : Text) (e : Ending) (room : Nat)
    (rest : Text) : Text :=
  List.replicate tabs '\t' ++ (type.text ++ (List.replicate gap ' ' ++
    (name ++ (e.text ++ (List.replicate room ' ' ++ rest)))))

section Layout

variable {tabs gap room : Nat} {type : Spelling} {name rest : Text} {e : Ending}

/-- Cleaning a line shortens its columns and only widens the gaps between them. -/
theorem clean_layout (hg : 0 < gap) (hr : 0 < room ∨ rest = []) :
    clean (layout tabs type gap name e room rest) =
      (List.replicate tabs '\t' ++ type.column) ++ (List.replicate (type.slack + gap) ' ' ++
        (clean name ++ (List.replicate (e.slack + room) ' ' ++ clean rest))) := by
  have hrest : clean (name ++ (e.text ++ (List.replicate room ' ' ++ rest))) =
      clean name ++ (List.replicate (e.slack + room) ' ' ++ clean rest) := by
    rw [← List.append_assoc name, ← List.replicate_append_replicate]
    rcases Nat.eq_zero_or_pos room with hzero | hpos
    · subst hzero
      obtain rfl := hr.resolve_left (Nat.lt_irrefl 0)
      simpa using e.clean_append name
    · obtain ⟨k, rfl⟩ := Nat.exists_eq_succ_of_ne_zero (Nat.pos_iff_ne_zero.1 hpos)
      have hspaces := clean_replicate (c := ' ') (by decide) (by decide) (k + 1) rest
      rw [List.replicate_succ, List.cons_append] at hspaces
      rw [List.replicate_succ, List.cons_append, clean_append_cons (by decide), e.clean_append,
        hspaces]
      simp
  obtain ⟨k, rfl⟩ := Nat.exists_eq_succ_of_ne_zero (Nat.pos_iff_ne_zero.1 hg)
  have hspaces := clean_replicate (c := ' ') (by decide) (by decide) (k + 1)
    (name ++ (e.text ++ (List.replicate room ' ' ++ rest)))
  rw [List.replicate_succ, List.cons_append, hrest] at hspaces
  have hgap : List.replicate (type.slack + (k + 1)) ' ' =
      List.replicate type.slack ' ' ++ ' ' :: List.replicate k ' ' := by
    rw [← List.replicate_append_replicate, List.replicate_succ]
  rw [layout, clean_replicate (by decide) (by decide), List.replicate_succ, List.cons_append,
    clean_append_cons (by decide), type.clean_text, hspaces, hgap]
  simp

theorem head_of_name? (hg : 0 < gap) (hr : 0 < room ∨ rest = []) {read : Text}
    (h : name? (clean (layout tabs type gap name e room rest)) = some read) :
    Variable.head (layout tabs type gap name e room rest) = .ok (type.scriptName, read) := by
  have htabs : ∀ c ∈ List.replicate tabs '\t', isBlank c = true := by
    intro c hc
    rw [List.eq_of_mem_replicate hc]
    decide
  have htype : TypeName.ofWords (Text.words (clean (layout tabs type gap name e room rest))) =
      .ok type.scriptName := by
    obtain ⟨k, hk⟩ := Nat.exists_eq_succ_of_ne_zero (n := type.slack + gap) (by omega)
    rw [clean_layout hg hr, hk, List.append_assoc]
    exact type.ofWords_column htabs (by decide) _
  simp only [Variable.head, htype, h]

theorem isColumn_margin : IsColumn (List.replicate tabs '\t' ++ type.column) :=
  type.isColumn fun h => absurd (List.eq_of_mem_replicate h) (by decide)

/-- A member line in columns is read as the type that it was written from and what cleaning leaves
of the name, whatever follows the columns. -/
theorem head_layout (hg : gapWidth ≤ gap) (hc : IsColumn (clean name))
    (hhead : ∀ c, (clean name).head? = some c → isBlank c = false)
    (hlast : ∀ c, (clean name).getLast? = some c → isBlank c = false)
    (hr : 0 < room ∧ gapWidth ≤ e.slack + room ∨ rest = []) :
    Variable.head (layout tabs type gap name e room rest) = .ok (type.scriptName, clean name) := by
  have hpos : 0 < gap := Nat.lt_of_lt_of_le (by decide) hg
  apply head_of_name? hpos (hr.imp_left And.left)
  rw [clean_layout hpos (hr.imp_left And.left)]
  apply name?_eq isColumn_margin hc _ hhead hlast
  · rcases hr with ⟨-, hroom⟩ | hrest
    · exact .inl hroom
    · exact .inr (by rw [hrest, clean_nil])
  · omega

theorem exists_head_layout (hg : gapWidth ≤ gap) (hn : clean name = []) (hr : 0 < room)
    (comment : Text) :
    ∃ tail, Variable.head (layout tabs type gap name e room ('\t' :: '\t' :: '/' :: comment)) =
      .ok (type.scriptName, '/' :: tail) := by
  have hpos : 0 < gap := Nat.lt_of_lt_of_le (by decide) hg
  have hcomment : clean ('\t' :: '\t' :: '/' :: comment) =
      ['\t', '\t'] ++ '/' :: clean comment := by
    rw [clean_cons (by decide), if_neg (by decide), clean_cons (by decide), if_neg (by decide),
      clean_cons (by decide), if_neg (by decide)]
    rfl
  have htabs : ∀ c ∈ ['\t', '\t'], isBlank c = true := by decide
  have hslash : isBlank '/' = false := by decide
  have hmargin : IsColumn (List.replicate tabs '\t' ++ type.column) := isColumn_margin
  have hwide : gapWidth ≤ type.slack + gap + (e.slack + room) := by omega
  obtain ⟨tail, hname⟩ :=
    exists_name? hmargin hwide htabs (by decide) hslash (clean comment)
  refine ⟨tail, head_of_name? hpos (.inl hr) ?_⟩
  rw [clean_layout hpos (.inl hr), hn, hcomment, List.nil_append,
    ← List.append_assoc (List.replicate _ ' '), List.replicate_append_replicate]
  exact hname

end Layout

/-- What a member line declares in its columns. -/
structure Entry where
  type : Spelling
  name : Text
  nonempty : name ≠ []
  tidy : clean name = name
  narrow : ¬ List.replicate gapWidth ' ' <:+: name
  trimmed : Text.IsTrimmed name
  ending : Ending

/-- How the columns of a member line are set, and what follows them. -/
structure Setting where
  tabs : Nat
  gap : Nat
  wide : gapWidth ≤ gap
  room : Nat
  rest : Text
  apart : gapWidth ≤ room ∨ room = 0 ∧ rest = []

namespace Entry

variable (m : Entry)

def line (s : Setting) : Text :=
  layout s.tabs m.type s.gap m.name m.ending s.room s.rest

theorem isColumn_name : IsColumn m.name := by
  obtain ⟨front, c, hname⟩ := (List.eq_nil_or_concat' m.name).resolve_left m.nonempty
  refine ⟨m.narrow, front, c, hname, ?_⟩
  rintro rfl
  have hblank := m.trimmed.last ' ' (by rw [hname, List.getLast?_concat])
  exact absurd hblank (by decide)

theorem head_line (s : Setting) :
    Variable.head (m.line s) = .ok (m.type.scriptName, m.name) := by
  have hroom : 0 < s.room ∧ gapWidth ≤ m.ending.slack + s.room ∨ s.rest = [] := by
    rcases s.apart with hwide | ⟨-, hrest⟩
    · left
      constructor
      · exact Nat.lt_of_lt_of_le (by decide) hwide
      · exact Nat.le_trans hwide (Nat.le_add_left _ _)
    · exact .inr hrest
  have hread : Variable.head (m.line s) = .ok (m.type.scriptName, clean m.name) := by
    apply head_layout s.wide _ _ _ hroom
    · rw [m.tidy]
      exact m.isColumn_name
    · rw [m.tidy]
      exact m.trimmed.head
    · rw [m.tidy]
      exact m.trimmed.last
  rw [hread, m.tidy]

/-- A member line in columns is read back exactly, and how its columns are set and what follows
them changes nothing of its name and its type. -/
theorem parse_columns (s : Setting) :
    (Variable.parse (m.line s)).result = .ok ⟨none, m.name, m.type.scriptName,
        (DecodedFlags.ofTokens (Flag.tokens (clean (m.line s)))).modifiers⟩ ∧
      ∀ other : Setting,
        (Variable.parse (m.line other)).result.map (fun v => (v.name, v.typeName)) =
          (Variable.parse (m.line s)).result.map fun v => (v.name, v.typeName) := by
  have hparse : ∀ s, (Variable.parse (m.line s)).result =
      .ok ⟨none, m.name, m.type.scriptName,
        (DecodedFlags.ofTokens (Flag.tokens (clean (m.line s)))).modifiers⟩ := by
    intro s
    rw [Variable.parse, m.head_line s]
  refine ⟨hparse s, fun other => ?_⟩
  rw [hparse other, hparse s, Except.map, Except.map]

end Entry

def ownedTextures : Entry where
  type := .array ⟨some .ofClass, ⟨"UTexture", by decide, by decide, by decide +kernel, by decide,
    by decide⟩, true⟩ (by decide)
  name := "Owned Textures"
  nonempty := by decide
  tidy := by decide +kernel
  narrow := narrow_of_count (by decide)
  trimmed := ⟨by rintro c ⟨⟩; decide, by rintro c ⟨⟩; decide⟩
  ending := .plain

theorem parse_columns_textures :
    ∃ s : Setting, ownedTextures.line s =
        "TArray< class UTexture* >   Owned Textures;    struct   1 (((CPF_Edit) : 1;" ∧
      (Variable.parse (ownedTextures.line s)).result =
        .ok ⟨none, "Owned Textures", "array<Texture>", ⟨[.edit], by decide⟩⟩ := by
  let s : Setting := ⟨0, 3, by decide, 4, "struct   1 (((CPF_Edit) : 1;", .inl (by decide)⟩
  have hflags : Flag.tokens (clean (ownedTextures.line s)) = ["CPF_Edit"] := by decide +kernel
  have hread := (ownedTextures.parse_columns s).1
  rw [hflags] at hread
  exact ⟨s, by decide +kernel, hread⟩

end Member

end UnrealDecl
