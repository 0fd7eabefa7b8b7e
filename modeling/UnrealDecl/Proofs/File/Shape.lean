import UnrealDecl.File.Workspace

namespace UnrealDecl

def Node.isDirectory : Node → Bool
  | file _ => false
  | directory => true

namespace Workspace

/-- Two workspaces have files at the same places, and directories at the same places. -/
structure Alike (w v : Workspace) : Prop where
  here : v.here = w.here
  kinds : ∀ place, (v.tree.get? place).map Node.isDirectory =
    (w.tree.get? place).map Node.isDirectory

/-- Two attempts at a change fail for the same reason, or lead to workspaces that are alike. -/
inductive AlikeResult : Except FileError Workspace → Except FileError Workspace → Prop
  | error (e : FileError) : AlikeResult (.error e) (.error e)
  | ok {w v : Workspace} (alike : Alike w v) : AlikeResult (.ok w) (.ok v)

namespace Alike

variable {w v : Workspace}

theorem refl (w : Workspace) : Alike w w :=
  ⟨rfl, fun _ => rfl⟩

theorem trans {u : Workspace} (h : Alike u w) (h' : Alike w v) : Alike u v :=
  ⟨h'.here.trans h.here, fun place => (h'.kinds place).trans (h.kinds place)⟩

theorem get?_cases (h : Alike w v) (place : Location) :
    (w.tree.get? place = none ∧ v.tree.get? place = none) ∨
      (w.tree.get? place = some .directory ∧ v.tree.get? place = some .directory) ∨
      ∃ c d, w.tree.get? place = some (.file c) ∧ v.tree.get? place = some (.file d) := by
  have hkinds := h.kinds place
  cases hw : w.tree.get? place with
  | none =>
    rw [hw] at hkinds
    exact .inl ⟨rfl, Option.map_eq_none_iff.1 hkinds⟩
  | some node =>
    rw [hw] at hkinds
    obtain ⟨node', hv, hkind⟩ := Option.map_eq_some_iff.1 hkinds
    rw [hv]
    cases node with
    | directory =>
      cases node' with
      | directory => exact .inr (.inl ⟨rfl, rfl⟩)
      | file d => cases hkind
    | file c =>
      cases node' with
      | directory => cases hkind
      | file d => exact .inr (.inr ⟨c, d, rfl, rfl⟩)

theorem enter (h : Alike w v) (dir : Location) (name : Text) :
    v.enter dir name = w.enter dir name := by
  rw [Workspace.enter, Workspace.enter]
  rcases h.get?_cases (name :: dir) with ⟨hw, hv⟩ | ⟨hw, hv⟩ | ⟨c, d, hw, hv⟩
  · rw [hw, hv]
  · rw [hw, hv]
  · rw [hw, hv]

theorem walk (h : Alike w v) (slash : Bool) (dir : Location) (names : List Text) :
    v.walk slash dir names = w.walk slash dir names := by
  induction names generalizing dir with
  | nil => rfl
  | cons name names ih =>
    cases names with
    | nil => rfl
    | cons second names =>
      rw [Workspace.walk, Workspace.walk, h.enter]
      · cases w.enter dir name with
        | error e => rfl
        | ok entered => exact ih entered
      · simp
      · simp

theorem find (h : Alike w v) (path : Text) : v.find path = w.find path := by
  rw [Workspace.find, Workspace.find, h.here, h.walk]

theorem put (h : Alike w v) (node node' : Node) (hk : node'.isDirectory = node.isDirectory)
    (name : Text) (dir : Location) :
    Alike { w with tree := w.tree.put (name :: dir) node }
      { v with tree := v.tree.put (name :: dir) node' } where
  here := h.here
  kinds place := by
    by_cases hne : place = name :: dir
    · subst hne
      rw [FileTree.get?_put_self, FileTree.get?_put_self, Option.map_some, Option.map_some, hk]
    · rw [FileTree.get?_put_of_ne hne, FileTree.get?_put_of_ne hne, h.kinds]

theorem write (h : Alike w v) (path : Text) (content content' : Bytes) :
    AlikeResult (w.write path content) (v.write path content') := by
  rw [Workspace.write, Workspace.write, h.find]
  cases w.find path with
  | error e => exact .error e
  | ok target =>
    cases target with
    | directory place => exact .error .isDirectory
    | entry dir name slash =>
      cases slash with
      | true => exact .error .isDirectory
      | false =>
        have hput := h.put (.file content) (.file content') rfl name dir
        dsimp only
        rcases h.get?_cases (name :: dir) with ⟨hw, hv⟩ | ⟨hw, hv⟩ | ⟨c, d, hw, hv⟩
        · rw [hw, hv]
          exact .ok hput
        · rw [hw, hv]
          exact .error .isDirectory
        · rw [hw, hv]
          exact .ok hput

theorem makeDir (h : Alike w v) (path : Text) :
    AlikeResult (w.makeDir path) (v.makeDir path) := by
  rw [Workspace.makeDir, Workspace.makeDir, h.find]
  cases w.find path with
  | error e => exact .error e
  | ok target =>
    cases target with
    | directory place => exact .error .alreadyThere
    | entry dir name slash =>
      dsimp only
      rcases h.get?_cases (name :: dir) with ⟨hw, hv⟩ | ⟨hw, hv⟩ | ⟨c, d, hw, hv⟩
      · rw [hw, hv]
        exact .ok (h.put .directory .directory rfl name dir)
      · rw [hw, hv]
        exact .error .alreadyThere
      · rw [hw, hv]
        exact .error .alreadyThere

theorem isDirectory (h : Alike w v) (path : Text) : v.isDirectory path = w.isDirectory path := by
  rw [Workspace.isDirectory, Workspace.isDirectory, h.find]
  cases w.find path with
  | error e => rfl
  | ok target =>
    cases target with
    | directory place => rfl
    | entry dir name slash =>
      dsimp only
      rcases h.get?_cases (name :: dir) with ⟨hw, hv⟩ | ⟨hw, hv⟩ | ⟨c, d, hw, hv⟩
      · rw [hw, hv]
      · rw [hw, hv]
      · rw [hw, hv]
        rfl

theorem settleDir (h : Alike w v) (path : Text) (e : FileError) :
    (v.settleDir path e).1 = (w.settleDir path e).1 ∧
      Alike (w.settleDir path e).2 (v.settleDir path e).2 := by
  rw [Workspace.settleDir, Workspace.settleDir, h.isDirectory]
  exact ⟨rfl, h⟩

theorem makeDirsAlong (h : Alike w v) (paths : List Text) :
    (v.makeDirsAlong paths).1 = (w.makeDirsAlong paths).1 ∧
      Alike (w.makeDirsAlong paths).2 (v.makeDirsAlong paths).2 := by
  induction paths with
  | nil => exact ⟨rfl, h⟩
  | cons path parents ih =>
    rw [Workspace.makeDirsAlong, Workspace.makeDirsAlong]
    split
    · exact ⟨rfl, h⟩
    · have hmade := h.makeDir path
      generalize w.makeDir path = made at *
      generalize v.makeDir path = made' at *
      cases hmade with
      | ok alike => exact ⟨rfl, alike⟩
      | error e =>
        obtain ⟨hresult, hbelow⟩ := ih
        generalize w.makeDirsAlong parents = below at *
        generalize v.makeDirsAlong parents = below' at *
        obtain ⟨result, below⟩ := below
        obtain ⟨result', below'⟩ := below'
        obtain rfl : result' = result := hresult
        split
        · rename_i he
          cases he
        · cases result' with
          | error e => exact ⟨rfl, hbelow⟩
          | ok done =>
            have hmade := hbelow.makeDir path
            dsimp only at hmade ⊢
            generalize below.makeDir path = made at *
            generalize below'.makeDir path = made' at *
            cases hmade with
            | ok alike => exact ⟨rfl, alike⟩
            | error e => exact hbelow.settleDir path e
        · exact h.settleDir path _

theorem makeDirs (h : Alike w v) (path : Text) :
    (v.makeDirs path).1 = (w.makeDirs path).1 ∧ Alike (w.makeDirs path).2 (v.makeDirs path).2 :=
  h.makeDirsAlong _

end Alike

end Workspace

end UnrealDecl
