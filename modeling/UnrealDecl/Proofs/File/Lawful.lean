import UnrealDecl.File.System
import UnrealDecl.Proofs.File.Frame

namespace UnrealDecl

/-- A file system that can be seen as a workspace: it reads what stands there, and whether or not
it makes a directory or writes a file, for whatever reason, it leaves all other files alone. -/
structure FileSystem.Lawful {σ : Type} [FileSystem (StateM σ)] (view : σ → Workspace) : Prop where
  read : ∀ (s : σ) (path : Text),
    (FileSystem.read (m := StateM σ) path).run s = ((view s).read path, s)
  makeDirs : ∀ (s : σ) (path : Text),
    Workspace.Frame [] (view s) (view ((FileSystem.makeDirs (m := StateM σ) path).run s).2)
  write : ∀ (s : σ) (path : Text) (content : Bytes),
    Workspace.Frame [(view s).place path] (view s)
      (view ((FileSystem.write (m := StateM σ) path content).run s).2)
  written : ∀ (s : σ) (path : Text) (content : Bytes),
    ((FileSystem.write (m := StateM σ) path content).run s).1 = .ok () →
      (view ((FileSystem.write (m := StateM σ) path content).run s).2).read path = .ok content

namespace Workspace

theorem run_makeDirs (w : Workspace) (path : Text) :
    (FileSystem.makeDirs (m := StateM Workspace) path).run w = w.makeDirs path := rfl

theorem run_write (w : Workspace) (path : Text) (content : Bytes) :
    (FileSystem.write (m := StateM Workspace) path content).run w =
      match w.write path content with
      | .ok written => (.ok (), written)
      | .error e => (.error e, w) := rfl

theorem lawful : FileSystem.Lawful (id : Workspace → Workspace) where
  read _ _ := rfl
  makeDirs w path := w.frame_makeDirs path
  write w path content := by
    rw [run_write]
    cases hw : w.write path content with
    | ok written => exact (frame_write hw).1
    | error e => exact (Frame.refl w).mono (by simp)
  written w path content h := by
    rw [run_write] at h ⊢
    cases hw : w.write path content with
    | ok written => exact (frame_write hw).2
    | error e =>
      rw [hw] at h
      cases h

end Workspace

end UnrealDecl
