import UnrealDecl.Text.Basic

namespace UnrealDecl

/-- A semantic qualifier of a member variable. -/
inductive Modifier
  | edit | const | editConst | editConstArray | editInline | editInlineNotify
  | localized | exported | transient | native | net | noExport
deriving DecidableEq, Repr

namespace Modifier

def all : List Modifier :=
  [.edit, .const, .editConst, .editConstArray, .editInline, .editInlineNotify, .localized,
   .exported, .transient, .native, .net, .noExport]

def name : Modifier → Text
  | edit => "Edit"
  | const => "Const"
  | editConst => "EditConst"
  | editConstArray => "EditConstArray"
  | editInline => "EditInline"
  | editInlineNotify => "EditInlineNotify"
  | localized => "Localized"
  | exported => "Export"
  | transient => "Transient"
  | native => "Native"
  | net => "Net"
  | noExport => "NoExport"

/-- The keyword written after `var`; `edit` is written as `var()` and `localized` not at all. -/
def keyword : Modifier → Option Text
  | edit => none
  | const => some "const"
  | editConst => some "editconst"
  | editConstArray => some "editconstarray"
  | editInline => some "editinline"
  | editInlineNotify => some "databinding"
  | localized => none
  | exported => some "export"
  | transient => some "transient"
  | native => some "native"
  | net => some "repnotify"
  | noExport => some "noexport"

theorem mem_all (m : Modifier) : m ∈ all := by
  cases m <;> decide

theorem name_inj {m n : Modifier} : m.name = n.name ↔ m = n := by
  constructor
  · revert m n
    have h : ∀ m ∈ all, ∀ n ∈ all, m.name = n.name → m = n := by decide
    exact fun {m n} => h m m.mem_all n n.mem_all
  · rintro rfl
    rfl

end Modifier

/-- Modifiers in the order they were first seen, each at most once. -/
structure Modifiers where
  toList : List Modifier
  nodup : toList.Nodup := by decide
deriving DecidableEq, Repr

namespace Modifiers

def empty : Modifiers := ⟨[], .nil⟩

@[simp] theorem toList_empty : empty.toList = [] := rfl

@[ext] theorem ext {s t : Modifiers} (h : s.toList = t.toList) : s = t := by
  cases s
  cases t
  simpa using h

def contains (s : Modifiers) (m : Modifier) : Bool :=
  decide (m ∈ s.toList)

/-- Adds a modifier at the end, unless it was seen before. -/
def insert (s : Modifiers) (m : Modifier) : Modifiers :=
  if h : m ∈ s.toList then s
  else ⟨s.toList ++ [m], List.nodup_append.2 ⟨s.nodup, by simp, by grind⟩⟩

theorem toList_insert (s : Modifiers) (m : Modifier) :
    (s.insert m).toList = if m ∈ s.toList then s.toList else s.toList ++ [m] := by
  by_cases h : m ∈ s.toList <;> simp [insert, h]

def size (s : Modifiers) : Nat := s.toList.length

def isEmpty (s : Modifiers) : Bool := s.toList.isEmpty

def keywords (s : Modifiers) : List Text :=
  s.toList.filterMap Modifier.keyword

end Modifiers

end UnrealDecl
