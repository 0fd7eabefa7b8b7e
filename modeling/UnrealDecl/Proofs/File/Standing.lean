import UnrealDecl.Proofs.File.Frame
import UnrealDecl.Proofs.File.Shape

namespace UnrealDecl.Workspace

theorem read_eq_ok_iff {w : Workspace} {path : Text} {content : Bytes} :
    w.read path = .ok content ↔ ∃ dir name, w.find path = .ok (.entry dir name false) ∧
      w.tree.get? (name :: dir) = some (.file content) := by
  constructor
  · intro h
    rw [read] at h
    split at h
    · cases h
    · cases h
    · rename_i dir name slash hfind
      split at h
      · cases h
      · cases h
      · rename_i found hfound
        cases slash with
        | true => cases h
        | false =>
          cases h
          exact ⟨dir, name, hfind, hfound⟩
  · rintro ⟨dir, name, hfind, hfile⟩
    rw [read, hfind]
    dsimp only
    rw [hfile]
    rfl

theorem get?_place_of_read {w : Workspace} {path : Text} {content : Bytes}
    (h : w.read path = .ok content) : w.tree.get? (w.place path) = some (.file content) := by
  obtain ⟨dir, name, hfind, hfile⟩ := read_eq_ok_iff.1 h
  rw [← place_of_find hfind]
  exact hfile

def HasFile (w : Workspace) (path : Text) : Prop :=
  ∃ content, w.read path = .ok content

/-- A path that needs not be made a directory any more: it is one, or it is empty. -/
def HasDirectory (w : Workspace) (path : Text) : Prop :=
  path = [] ∨ w.isDirectory path = true

theorem Frame.isDirectory {w next : Workspace} {places : List Location}
    (h : Frame places w next) {path : Text} (hd : w.isDirectory path = true) :
    next.isDirectory path = true := by
  rw [Workspace.isDirectory] at hd ⊢
  cases hf : w.find path with
  | error e =>
    rw [hf] at hd
    cases hd
  | ok target =>
    rw [h.find hf]
    rw [hf] at hd
    cases target with
    | directory place => rfl
    | entry dir name slash =>
      dsimp only at hd ⊢
      rw [h.directories _ (beq_iff_eq.1 hd)]
      rfl

theorem Frame.hasDirectory {w next : Workspace} {places : List Location}
    (h : Frame places w next) {path : Text} (hd : w.HasDirectory path) :
    next.HasDirectory path :=
  hd.imp_right h.isDirectory

/-- Making a directory that is there changes nothing. -/
theorem HasDirectory.makeDirs {w : Workspace} {path : Text} (h : w.HasDirectory path) :
    w.makeDirs path = (.ok (), w) := by
  rcases h with rfl | h
  · rfl
  · have hmake : w.makeDir path = .error .alreadyThere := by
      rw [isDirectory] at h
      rw [makeDir]
      cases hf : w.find path with
      | error e =>
        rw [hf] at h
        cases h
      | ok target =>
        rw [hf] at h
        cases target with
        | directory place => rfl
        | entry dir name slash =>
          dsimp only at h ⊢
          rw [beq_iff_eq.1 h]
    rw [Workspace.makeDirs, makeDirsAlong, hmake]
    split
    · rfl
    · dsimp only
      rw [settleDir, if_pos h]

theorem isDirectory_of_makeDir {w made : Workspace} {path : Text}
    (h : w.makeDir path = .ok made) : made.isDirectory path = true := by
  have hframe := frame_makeDir h
  rw [makeDir] at h
  split at h
  · cases h
  · cases h
  · rename_i dir name slash hf
    split at h
    · cases h
    · rw [isDirectory, hframe.find hf]
      cases h
      dsimp only
      rw [FileTree.get?_put_self]
      rfl

theorem isDirectory_of_settleDir {w : Workspace} {path : Text} {e : FileError}
    (h : (w.settleDir path e).1 = .ok ()) : w.isDirectory path = true := by
  rw [settleDir] at h
  by_contra hd
  rw [if_neg hd] at h
  cases h

theorem hasDirectory_of_makeDirs {w : Workspace} {path : Text}
    (h : (w.makeDirs path).1 = .ok ()) : (w.makeDirs path).2.HasDirectory path := by
  rw [makeDirs, makeDirsAlong] at h ⊢
  split at h
  · rename_i hempty
    exact .inl (List.isEmpty_iff.1 hempty)
  · rename_i hne
    rw [if_neg hne]
    right
    split at h
    · rename_i hmade
      exact isDirectory_of_makeDir hmade
    · split at h
      · cases h
      · split at h
        · rename_i hmade
          exact isDirectory_of_makeDir hmade
        · exact isDirectory_of_settleDir h
    · exact isDirectory_of_settleDir h

theorem HasFile.write {w next : Workspace} {path other : Text} {content : Bytes}
    (h : w.HasFile path) (hw : w.write other content = .ok next) : next.HasFile path := by
  obtain ⟨old, hold⟩ := h
  obtain ⟨hframe, hwritten⟩ := frame_write hw
  by_cases hsame : w.place path = w.place other
  · obtain ⟨dir, name, hfind, -⟩ := read_eq_ok_iff.1 hold
    obtain ⟨dir', name', hfind', hfile⟩ := read_eq_ok_iff.1 hwritten
    have hplace := place_of_find (hframe.find hfind)
    have hplace' := place_of_find hfind'
    rw [hframe.place, hsame, ← hframe.place, ← hplace'] at hplace
    cases hplace
    exact ⟨content, read_eq_ok_iff.2 ⟨dir, name, hframe.find hfind, hfile⟩⟩
  · exact ⟨old, hframe.read hold (by simpa using hsame)⟩

theorem HasFile.makeDirs {w : Workspace} {path : Text} (h : w.HasFile path) (other : Text) :
    (w.makeDirs other).2.HasFile path := by
  obtain ⟨content, hread⟩ := h
  exact ⟨content, (w.frame_makeDirs other).read hread List.not_mem_nil⟩

theorem HasFile.exists_write {w : Workspace} {path : Text} (h : w.HasFile path)
    (content : Bytes) : ∃ next, w.write path content = .ok next ∧ w.Alike next := by
  obtain ⟨old, hold⟩ := h
  obtain ⟨dir, name, hfind, hfile⟩ := read_eq_ok_iff.1 hold
  refine ⟨{ w with tree := w.tree.put (name :: dir) (.file content) }, ?_, rfl, fun place => ?_⟩
  · rw [Workspace.write, hfind]
    dsimp only
    rw [if_neg Bool.false_ne_true, hfile]
  · rcases eq_or_ne place (name :: dir) with rfl | hne
    · rw [FileTree.get?_put_self, hfile]
      rfl
    · rw [FileTree.get?_put_of_ne hne]

end UnrealDecl.Workspace
