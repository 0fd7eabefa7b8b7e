namespace UnrealDecl

/-- Text is a sequence of Unicode characters. -/
abbrev Text := List Char

instance : Coe String Text := ⟨String.toList⟩

namespace Text

/-- The parts before and after the first occurrence of `word`. -/
def cut (word : Text) : Text → Option (Text × Text)
  | [] => if word.isEmpty then some ([], []) else none
  | c :: rest =>
    if word.isPrefixOf (c :: rest) then some ([], (c :: rest).drop word.length)
    else (cut word rest).map fun parts => (c :: parts.1, parts.2)

def occurs (word text : Text) : Bool :=
  (cut word text).isSome

theorem eq_of_cut {word text before after : Text} (h : cut word text = some (before, after)) :
    text = before ++ word ++ after := by
  induction text generalizing before with
  | nil =>
    simp only [cut] at h
    split at h <;> simp_all
  | cons c rest ih =>
    simp only [cut] at h
    split at h
    next hp =>
      obtain ⟨tail, ht⟩ := List.isPrefixOf_iff_prefix.1 hp
      simp only [Option.some.injEq, Prod.mk.injEq] at h
      obtain ⟨rfl, rfl⟩ := h
      simp [← ht]
    next =>
      obtain ⟨⟨b, a⟩, hb, he⟩ := Option.map_eq_some_iff.1 h
      simp only [Prod.mk.injEq] at he
      obtain ⟨rfl, rfl⟩ := he
      rw [ih hb]
      simp

theorem cut_eq_none_iff {word text : Text} : cut word text = none ↔ ¬ word <:+: text := by
  induction text with
  | nil =>
    simp only [cut, List.infix_nil]
    cases word <;> simp
  | cons c rest ih =>
    rw [cut, List.infix_cons_iff, ← List.isPrefixOf_iff_prefix]
    split
    next h => simp [h]
    next h => simp [h, ih]

theorem occurs_iff {word text : Text} : occurs word text = true ↔ word <:+: text := by
  by_cases h : word <:+: text <;>
    simp [occurs, h, Option.isSome_iff_ne_none, cut_eq_none_iff]

def consFirst (c : Char) : List Text → List Text
  | [] => [[c]]
  | piece :: pieces => (c :: piece) :: pieces

@[simp] theorem consFirst_cons (c : Char) (piece : Text) (pieces : List Text) :
    consFirst c (piece :: pieces) = (c :: piece) :: pieces := rfl

/-- The pieces between the characters that satisfy `sep`, empty ones included. -/
def splitWhere (sep : Char → Bool) : Text → List Text
  | [] => [[]]
  | c :: rest => if sep c then [] :: splitWhere sep rest else consFirst c (splitWhere sep rest)

@[simp] theorem splitWhere_nil (sep : Char → Bool) : splitWhere sep [] = [[]] := rfl

theorem splitWhere_cons_of_sep {sep : Char → Bool} {c : Char} (h : sep c = true) (rest : Text) :
    splitWhere sep (c :: rest) = [] :: splitWhere sep rest := by
  simp [splitWhere, h]

theorem splitWhere_cons_of_not_sep {sep : Char → Bool} {c : Char} (h : sep c = false)
    (rest : Text) : splitWhere sep (c :: rest) = consFirst c (splitWhere sep rest) := by
  simp [splitWhere, h]

theorem splitWhere_ne_nil (sep : Char → Bool) (text : Text) : splitWhere sep text ≠ [] := by
  cases text with
  | nil => simp
  | cons c rest =>
    by_cases h : sep c = true
    · simp [splitWhere, h]
    · simp only [splitWhere, h]
      cases splitWhere sep rest <;> simp [consFirst]

def tokens (sep : Char → Bool) (text : Text) : List Text :=
  (splitWhere sep text).filter fun piece => !piece.isEmpty

def join (glue : Text) : List Text → Text
  | [] => []
  | [piece] => piece
  | piece :: pieces => piece ++ glue ++ join glue pieces

theorem join_consFirst (c : Char) (glue : Text) {ps : List Text} (h : ps ≠ []) :
    join glue (consFirst c ps) = c :: join glue ps := by
  match ps with
  | [p] => rfl
  | p :: q :: ps => rfl

theorem join_nil_cons (glue : Text) {ps : List Text} (h : ps ≠ []) :
    join glue ([] :: ps) = glue ++ join glue ps := by
  match ps with
  | p :: ps => rfl

theorem join_splitWhere (c : Char) (text : Text) :
    join [c] (splitWhere (· == c) text) = text := by
  induction text with
  | nil => rfl
  | cons d rest ih =>
    have hne := splitWhere_ne_nil (· == c) rest
    by_cases h : d = c
    · subst h
      rw [splitWhere_cons_of_sep (by simp), join_nil_cons _ hne, ih]
      rfl
    · rw [splitWhere_cons_of_not_sep (by simpa using h), join_consFirst _ _ hne, ih]

/-- Skips `skip` characters, then removes every occurrence of `word` found from the left. -/
def removeFrom (word : Text) : Nat → Text → Text
  | _, [] => []
  | skip + 1, _ :: rest => removeFrom word skip rest
  | 0, c :: rest =>
    if word.isPrefixOf (c :: rest) then removeFrom word (word.length - 1) rest
    else c :: removeFrom word 0 rest

/-- Removes every occurrence of `word`, from the left and without overlaps. -/
def remove (word text : Text) : Text :=
  if word.isEmpty then text else removeFrom word 0 text

@[simp] theorem remove_nil (word : Text) : remove word [] = [] := by
  simp [remove, removeFrom]

theorem removeFrom_eq_drop (word : Text) (skip : Nat) (text : Text) :
    removeFrom word skip text = removeFrom word 0 (text.drop skip) := by
  induction skip generalizing text with
  | zero => rfl
  | succ skip ih =>
    cases text with
    | nil => simp [removeFrom]
    | cons c rest => rw [removeFrom, ih, List.drop_succ_cons]

theorem remove_append_self {word : Text} (h : word ≠ []) (text : Text) :
    remove word (word ++ text) = remove word text := by
  obtain ⟨c, word, rfl⟩ := List.exists_cons_of_ne_nil h
  simp [remove, removeFrom, removeFrom_eq_drop (c :: word) word.length]

theorem remove_cons {word : Text} {c : Char} {rest : Text} (hw : word ≠ [])
    (h : ¬ word <+: c :: rest) : remove word (c :: rest) = c :: remove word rest := by
  have hp : word.isPrefixOf (c :: rest) = false := by
    simpa [← List.isPrefixOf_iff_prefix] using h
  simp [remove, hw, removeFrom, hp]

/-- Whether one text comes before another, by code point. -/
def before : Text → Text → Bool
  | _, [] => false
  | [], _ :: _ => true
  | a :: s, b :: t => decide (a.toNat < b.toNat) || a == b && before s t

def ofNat (n : Nat) : Text :=
  Nat.toDigits 10 n

/-- A number as `0x` and hexadecimal digits, lower-case and without padding. -/
def hex (n : Nat) : Text :=
  "0x" ++ Nat.toDigits 16 n

end Text

end UnrealDecl
