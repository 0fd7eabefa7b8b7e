import UnrealDecl.File.Workspace
import UnrealDecl.Proofs.File.Path

namespace UnrealDecl.Workspace

def stepTo (dir : Location) (name : Text) : Location :=
  if name = "." then dir else if name = ".." then dir.tail else name :: dir

/-- The place that a path leads to, whether or not something stands there. -/
def place (w : Workspace) (path : Text) : Location :=
  (Path.names path).foldl stepTo (if Path.isAbsolute path then [] else w.here)

def Target.place : Target → Location
  | directory place => place
  | entry dir name _ => name :: dir

theorem stepTo_of_enter {w : Workspace} {dir next : Location} {name : Text}
    (h : w.enter dir name = .ok next) : next = stepTo dir name := by
  rw [enter] at h
  rw [stepTo]
  split at h
  · cases h
    rw [if_pos ‹_›]
  · rw [if_neg ‹_›]
    split at h
    · cases h
      rw [if_pos ‹_›]
    · rw [if_neg ‹_›]
      split at h
      · cases h
      · split at h
        · cases h
        · cases h
        · cases h
          rfl

theorem place_of_walk {w : Workspace} {slash : Bool} {dir : Location} {names : List Text}
    {t : Target} (h : w.walk slash dir names = .ok t) : t.place = names.foldl stepTo dir := by
  induction names generalizing dir with
  | nil =>
    cases h
    rfl
  | cons name names ih =>
    cases names with
    | nil =>
      rw [walk] at h
      rw [List.foldl_cons, List.foldl_nil, stepTo]
      split at h
      · cases h
        rw [if_pos ‹_›]
        rfl
      · rw [if_neg ‹_›]
        split at h
        · cases h
          rw [if_pos ‹_›]
          rfl
        · rw [if_neg ‹_›]
          split at h
          · cases h
          · cases h
            rfl
    | cons next names =>
      rw [walk] at h
      · cases he : w.enter dir name with
        | error e =>
          rw [he] at h
          cases h
        | ok entered =>
          rw [he] at h
          rw [List.foldl_cons, ← stepTo_of_enter he]
          exact ih h
      · simp

theorem walk_of_find {w : Workspace} {path : Text} {t : Target} (h : w.find path = .ok t) :
    w.walk (path.getLast? == some '/') (if Path.isAbsolute path then [] else w.here)
      (Path.names path) = .ok t := by
  rw [find] at h
  split at h
  · cases h
  · split at h
    · cases h
    · split at h
      · cases h
      · exact h

theorem place_of_find {w : Workspace} {path : Text} {t : Target} (h : w.find path = .ok t) :
    t.place = w.place path :=
  place_of_walk (walk_of_find h)

/-- From one workspace to the next, something is changed at some places only; elsewhere there are at
most more directories. -/
structure Frame (places : List Location) (w next : Workspace) : Prop where
  here : next.here = w.here
  others : ∀ place, place ∉ places → next.tree.get? place = w.tree.get? place ∨
    w.tree.get? place = none ∧ next.tree.get? place = some .directory
  directories : ∀ place, w.tree.get? place = some .directory →
    next.tree.get? place = some .directory

namespace Frame

variable {w mid next : Workspace} {places later : List Location}

theorem refl (w : Workspace) : Frame [] w w :=
  ⟨rfl, fun _ _ => .inl rfl, fun _ h => h⟩

theorem mono (h : Frame places w next) (hs : places ⊆ later) : Frame later w next :=
  ⟨h.here, fun place hp => h.others place fun hm => hp (hs hm), h.directories⟩

theorem trans (h : Frame places w mid) (h' : Frame later mid next) :
    Frame (places ++ later) w next where
  here := h'.here.trans h.here
  others place hp := by
    rw [List.mem_append, not_or] at hp
    rcases h.others place hp.1 with he | ⟨hnone, hdir⟩
    · rw [← he]
      exact h'.others place hp.2
    · exact .inr ⟨hnone, h'.directories place hdir⟩
  directories place hd := h'.directories place (h.directories place hd)

theorem file_iff (h : Frame places w next) {place : Location} (hp : place ∉ places)
    (content : Bytes) :
    next.tree.get? place = some (.file content) ↔ w.tree.get? place = some (.file content) := by
  rcases h.others place hp with he | ⟨hnone, hdir⟩
  · rw [he]
  · rw [hnone, hdir]
    simp

theorem place (h : Frame places w next) (path : Text) : next.place path = w.place path := by
  rw [Workspace.place, Workspace.place, h.here]

theorem enter (h : Frame places w next) {dir entered : Location} {name : Text}
    (he : w.enter dir name = .ok entered) : next.enter dir name = .ok entered := by
  rw [Workspace.enter] at he ⊢
  split at he
  · rw [if_pos ‹_›]
    exact he
  · rw [if_neg ‹_›]
    split at he
    · rw [if_pos ‹_›]
      exact he
    · rw [if_neg ‹_›]
      split at he
      · cases he
      · rw [if_neg ‹_›]
        split at he
        · cases he
        · cases he
        · rw [h.directories _ ‹_›]
          exact he

theorem walk (h : Frame places w next) {slash : Bool} {dir : Location} {names : List Text}
    {t : Target} (hw : w.walk slash dir names = .ok t) : next.walk slash dir names = .ok t := by
  induction names generalizing dir with
  | nil => exact hw
  | cons name names ih =>
    cases names with
    | nil => exact hw
    | cons second names =>
      rw [Workspace.walk] at hw ⊢
      · cases he : w.enter dir name with
        | error e =>
          rw [he] at hw
          cases hw
        | ok entered =>
          rw [he] at hw
          rw [h.enter he]
          exact ih hw
      · simp
      · simp

theorem find (h : Frame places w next) {path : Text} {t : Target} (hf : w.find path = .ok t) :
    next.find path = .ok t := by
  have hwalk := h.walk (walk_of_find hf)
  rw [← h.here] at hwalk
  rw [Workspace.find] at hf ⊢
  split at hf
  · cases hf
  · rw [if_neg ‹_›]
    split at hf
    · cases hf
    · rw [if_neg ‹_›]
      split at hf
      · cases hf
      · rw [if_neg ‹_›]
        exact hwalk

theorem read (h : Frame places w next) {path : Text} {content : Bytes}
    (hr : w.read path = .ok content) (hp : w.place path ∉ places) :
    next.read path = .ok content := by
  rw [Workspace.read] at hr ⊢
  cases hf : w.find path with
  | error e =>
    rw [hf] at hr
    cases hr
  | ok t =>
    rw [h.find hf]
    rw [hf] at hr
    cases t with
    | directory dir => cases hr
    | entry dir name slash =>
      have hplace := place_of_find hf
      rw [← hplace] at hp
      dsimp only at hr ⊢
      rcases h.others _ hp with he | ⟨hnone, -⟩
      · rw [Target.place] at he
        rw [he]
        exact hr
      · rw [Target.place] at hnone
        rw [hnone] at hr
        cases hr

end Frame

theorem frame_put {w : Workspace} {name : Text} {dir : Location} {node : Node}
    (h : w.tree.get? (name :: dir) ≠ some .directory) :
    Frame [name :: dir] w { w with tree := w.tree.put (name :: dir) node } where
  here := rfl
  others place hp := .inl (FileTree.get?_put_of_ne (by simpa using hp) node)
  directories place hd := by
    have hne : place ≠ name :: dir := by
      rintro rfl
      exact h hd
    rw [FileTree.get?_put_of_ne hne]
    exact hd

theorem frame_makeDir {w next : Workspace} {path : Text} (h : w.makeDir path = .ok next) :
    Frame [] w next := by
  rw [makeDir] at h
  cases hf : w.find path with
  | error e =>
    rw [hf] at h
    cases h
  | ok t =>
    rw [hf] at h
    cases t with
    | directory dir => cases h
    | entry dir name slash =>
      cases hfree : w.tree.get? (name :: dir) with
      | some node =>
        simp only [hfree] at h
        cases h
      | none =>
        simp only [hfree] at h
        cases h
        have hput : Frame [name :: dir] w { w with tree := w.tree.put (name :: dir) .directory } :=
          frame_put (by simp [hfree])
        refine ⟨hput.here, fun place _ => ?_, hput.directories⟩
        rcases eq_or_ne place (name :: dir) with rfl | hne
        · exact .inr ⟨hfree, FileTree.get?_put_self _ _ _ _⟩
        · exact .inl (FileTree.get?_put_of_ne hne _)

/-- Making directories makes directories only, also where it fails. -/
theorem frame_makeDirsAlong (w : Workspace) (paths : List Text) :
    Frame [] w (w.makeDirsAlong paths).2 := by
  induction paths with
  | nil => exact .refl w
  | cons path parents ih =>
    rw [makeDirsAlong]
    split
    · exact .refl w
    · split
      · exact frame_makeDir ‹_›
      · split
        · rename_i hbelow
          rw [hbelow] at ih
          exact ih
        · rename_i hbelow
          rw [hbelow] at ih
          split
          · exact ih.trans (frame_makeDir ‹_›)
          · exact ih
      · exact .refl w

theorem frame_makeDirs (w : Workspace) (path : Text) : Frame [] w (w.makeDirs path).2 :=
  w.frame_makeDirsAlong _

theorem frame_write {w next : Workspace} {path : Text} {content : Bytes}
    (h : w.write path content = .ok next) :
    Frame [w.place path] w next ∧ next.read path = .ok content := by
  rw [write] at h
  cases hf : w.find path with
  | error e =>
    rw [hf] at h
    cases h
  | ok t =>
    rw [hf] at h
    cases t with
    | directory dir => cases h
    | entry dir name slash =>
      cases slash with
      | true => cases h
      | false =>
        have hplace := place_of_find hf
        rw [Target.place] at hplace
        have hnode : w.tree.get? (name :: dir) ≠ some .directory ∧
            next = { w with tree := w.tree.put (name :: dir) (.file content) } := by
          dsimp only at h
          rw [if_neg Bool.false_ne_true] at h
          split at h
          · cases h
          · rename_i hne
            cases h
            exact ⟨hne, rfl⟩
        obtain ⟨hne, rfl⟩ := hnode
        have hframe : Frame [name :: dir] w
            { w with tree := w.tree.put (name :: dir) (.file content) } := frame_put hne
        refine ⟨hplace ▸ hframe, ?_⟩
        rw [read, hframe.find hf]
        dsimp only
        rw [FileTree.get?_put_self]
        rfl

end UnrealDecl.Workspace
