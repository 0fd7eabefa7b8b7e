import UnrealDecl.Text.Utf8

namespace UnrealDecl

/-- A place in a file tree: the names that lead to it, from the last. -/
abbrev Location := List Text

inductive Node
  | file (content : Bytes)
  | directory
deriving DecidableEq

/-- Files and directories below a root, which is always a directory. -/
structure FileTree where
  nodes : List (Location × Node) := []

namespace FileTree

def get? (t : FileTree) : Location → Option Node
  | [] => some .directory
  | name :: dir => t.nodes.lookup (name :: dir)

def put (t : FileTree) (place : Location) (node : Node) : FileTree :=
  ⟨(place, node) :: t.nodes.filter fun entry => entry.1 != place⟩

@[simp] theorem get?_put_self (t : FileTree) (name : Text) (dir : Location) (node : Node) :
    (t.put (name :: dir) node).get? (name :: dir) = some node := by
  simp [get?, put]

theorem lookup_filter_ne {nodes : List (Location × Node)} {a b : Location} (h : b ≠ a) :
    (nodes.filter fun entry => entry.1 != a).lookup b = nodes.lookup b := by
  induction nodes with
  | nil => rfl
  | cons entry nodes ih =>
    obtain ⟨place, node⟩ := entry
    by_cases ha : place = a
    · subst ha
      have hb : (b == place) = false := by simpa using h
      simp [List.lookup_cons, hb, ih]
    · simp [ha, List.lookup_cons, ih]

theorem get?_put_of_ne {t : FileTree} {a b : Location} (h : b ≠ a) (node : Node) :
    (t.put a node).get? b = t.get? b := by
  cases b with
  | nil => rfl
  | cons name dir =>
    have hb : (name :: dir == a) = false := by simpa using h
    simp [get?, put, List.lookup_cons, hb, lookup_filter_ne h]

end FileTree

end UnrealDecl
