import Mathlib.Data.List.Nodup
import UnrealDecl.Proofs.Conversion.Execution
import UnrealDecl.Proofs.Conversion.Grouping
import UnrealDecl.Proofs.File.Frame

namespace UnrealDecl

namespace ClassFile

/-- Neither part of the name of a class file makes subdirectories. -/
structure IsFlat (file : ClassFile) : Prop where
  package : '/' ∉ file.package
  name : '/' ∉ file.name

theorem isAbsolute_of_not_mem {part : Text} (h : '/' ∉ part) : Path.isAbsolute part = false := by
  cases part with
  | nil => rfl
  | cons c part =>
    have hc : c ≠ '/' := fun he => h (he ▸ .head _)
    simpa [Path.isAbsolute] using hc

theorem names_of_not_mem {part : Text} (hne : part ≠ []) (h : '/' ∉ part) :
    Path.names part = [part] :=
  Text.tokens_eq_singleton hne fun _ hc => beq_eq_false_iff_ne.2 fun he => h (he ▸ hc)

variable {file other : ClassFile}

theorem IsFlat.fileName (h : file.IsFlat) : '/' ∉ file.name ++ ".uc" := by
  rw [List.mem_append, not_or]
  exact ⟨h.name, by decide⟩

theorem names_path (hn : file.Named) (h : file.IsFlat) (out : Text) :
    Path.names (file.path out) =
      Path.names out ++ [file.package, "Classes", file.name ++ ".uc"] := by
  have hclasses : Path.names "Classes" = [("Classes" : Text)] := by decide
  rw [path, Path.names_join (isAbsolute_of_not_mem h.fileName), Path.names_join (by decide),
    Path.names_join (isAbsolute_of_not_mem h.package), names_of_not_mem hn.package.1 h.package,
    names_of_not_mem (by simp) h.fileName, hclasses, List.append_assoc, List.append_assoc]
  rfl

theorem isAbsolute_path (h : file.IsFlat) (out : Text) :
    Path.isAbsolute (file.path out) = Path.isAbsolute out := by
  rw [path, Path.isAbsolute_join (isAbsolute_of_not_mem h.fileName),
    Path.isAbsolute_join (by decide), Path.isAbsolute_join (isAbsolute_of_not_mem h.package)]

theorem stepTo_of_isPart {part : Text} (h : IsPart part) (dir : Location) :
    Workspace.stepTo dir part = part :: dir := by
  rw [Workspace.stepTo, if_neg, if_neg]
  · rintro rfl
    exact h.2 (by decide)
  · rintro rfl
    exact h.2 (by decide)

theorem stepTo_fileName (name : Text) (dir : Location) :
    Workspace.stepTo dir (name ++ ".uc") = (name ++ ".uc") :: dir := by
  have hmem : 'u' ∈ name ++ ".uc" := List.mem_append_right _ (by decide)
  rw [Workspace.stepTo, if_neg, if_neg]
  · intro he
    rw [he] at hmem
    exact absurd hmem (by decide)
  · intro he
    rw [he] at hmem
    exact absurd hmem (by decide)

theorem place_path (hn : file.Named) (h : file.IsFlat) (w : Workspace) (out : Text) :
    w.place (file.path out) = (file.name ++ ".uc") :: "Classes" :: file.package :: w.place out := by
  have hclasses : IsPart "Classes" := ⟨by decide, by decide⟩
  rw [Workspace.place, names_path hn h, isAbsolute_path h, List.foldl_append, List.foldl_cons,
    List.foldl_cons, List.foldl_cons, List.foldl_nil, stepTo_of_isPart hn.package,
    stepTo_of_isPart hclasses, stepTo_fileName]
  rfl

theorem place_path_inj (hn : file.Named) (h : file.IsFlat) (hn' : other.Named)
    (h' : other.IsFlat) {w : Workspace} {out : Text}
    (he : w.place (file.path out) = w.place (other.path out)) : file = other := by
  rw [place_path hn h, place_path hn' h'] at he
  obtain ⟨hname, he⟩ := List.cons.inj he
  obtain ⟨hpackage, -⟩ := List.cons.inj (List.cons.inj he).2
  cases file
  cases other
  exact congr (congrArg ClassFile.mk hpackage) (List.append_cancel_right hname)

end ClassFile

namespace Conversion

section Lawful

open Workspace (Frame)

variable {σ : Type} [FileSystem (StateM σ)] {view : σ → Workspace}

theorem frame_writeBody (h : FileSystem.Lawful view) (s : σ) (path : Text) (b : ClassBody) :
    let wrote := (writeBody (m := StateM σ) path b).run s
    Frame [(view s).place path] (view s) (view wrote.2) ∧
      (wrote.1 = .ok () → (view wrote.2).read path = .ok (Utf8.encode b.render)) ∧
      ∀ e, wrote.1 = .error e →
        ∃ blamed cause, e = .write blamed cause ∧ blamed ∈ [(Path.parent? path).getD [], path] := by
  intro wrote
  have hdirs := h.makeDirs s ((Path.parent? path).getD [])
  have hwrote : wrote = (writeBody (m := StateM σ) path b).run s := rfl
  rw [writeBody, run_bind] at hwrote
  generalize (FileSystem.makeDirs (m := StateM σ) ((Path.parent? path).getD [])).run s = made at *
  obtain ⟨result, below⟩ := made
  dsimp only at hdirs
  cases result with
  | error e =>
    rw [hwrote]
    exact ⟨hdirs.mono (by simp), nofun, fun _ he => ⟨_, e, (Except.error.inj he).symm, .head _⟩⟩
  | ok done =>
    dsimp only at hwrote
    rw [run_bind] at hwrote
    have hframe := h.write below path (Utf8.encode b.render)
    have hread := h.written below path (Utf8.encode b.render)
    generalize (FileSystem.write (m := StateM σ) path (Utf8.encode b.render)).run below =
      written at *
    obtain ⟨result, after⟩ := written
    rw [hdirs.place] at hframe
    have hall : Frame [(view s).place path] (view s) (view after) := hdirs.trans hframe
    cases result with
    | error e =>
      rw [hwrote]
      exact ⟨hall, nofun, fun _ he => ⟨_, e, (Except.error.inj he).symm, .tail _ (.head _)⟩⟩
    | ok done =>
      rw [hwrote]
      exact ⟨hall, fun _ => hread rfl, nofun⟩

/-- Writing bodies changes their files, and otherwise makes directories. -/
theorem frame_writeBodies (h : FileSystem.Lawful view) {s : σ} {out : Text}
    {bodies : List ClassBody} {written : List Text}
    (hw : ((writeBodies (m := StateM σ) out bodies).run s).1.result = .ok written) :
    Frame (bodies.map fun b => (view s).place (b.file.path out)) (view s)
      (view ((writeBodies (m := StateM σ) out bodies).run s).2) := by
  induction bodies generalizing s written with
  | nil => exact .refl _
  | cons b bodies ih =>
    obtain ⟨-, hfinal, others, -, hothers⟩ := writeBodies_cons_ok hw
    obtain ⟨hframe, -, -⟩ := frame_writeBody h s (b.file.path out) b
    have hrest := ih hothers
    rw [← hfinal] at hrest
    simp only [hframe.place] at hrest
    exact hframe.trans hrest

/-- Of bodies that are written to different places, no later one touches an earlier. -/
theorem read_writeBodies (h : FileSystem.Lawful view) {s : σ} {out : Text}
    {bodies : List ClassBody} {written : List Text}
    (hw : ((writeBodies (m := StateM σ) out bodies).run s).1.result = .ok written)
    (hd : (bodies.map fun b => (view s).place (b.file.path out)).Nodup) :
    ∀ b ∈ bodies, (view ((writeBodies (m := StateM σ) out bodies).run s).2).read
      (b.file.path out) = .ok (Utf8.encode b.render) := by
  induction bodies generalizing s written with
  | nil => simp
  | cons b bodies ih =>
    obtain ⟨hb, hfinal, others, -, hothers⟩ := writeBodies_cons_ok hw
    obtain ⟨hframe, hread, -⟩ := frame_writeBody h s (b.file.path out) b
    rw [List.map_cons, List.nodup_cons] at hd
    have hlater := frame_writeBodies h hothers
    have hreads := ih hothers (by simpa only [hframe.place] using hd.2)
    rw [← hfinal] at hlater hreads
    simp only [hframe.place] at hlater
    intro d hm
    rcases List.mem_cons.1 hm with rfl | hm
    · exact hlater.read (hread hb) (by rw [hframe.place]; exact hd.1)
    · exact hreads d hm

end Lawful

end Conversion

theorem Conversion.ownerRead_of_mem_scanned {contents : List Bytes} {f : Fragment}
    (h : f ∈ scanned contents) : f.OwnerRead := by
  obtain ⟨bytes, -, hf⟩ := List.mem_flatMap.1 h
  exact Header.ownerRead_of_mem hf

theorem Conversion.reachable_filed (skips : SkipList) (contents : List Bytes) :
    (filed skips contents).1.Reachable :=
  .skip skips (Session.Reachable.start.addAll fun _ => ownerRead_of_mem_scanned)

theorem Workspace.frame_of_writeBodies {w : Workspace} {out : Text} {bodies : List ClassBody}
    {written : List Text} (h : (w.writeBodies out bodies).1.result = .ok written) :
    Frame (bodies.map fun b => w.place (b.file.path out)) w (w.writeBodies out bodies).2 :=
  Conversion.frame_writeBodies lawful h

theorem Workspace.frame_writeBodies {w : Workspace} {out : Text} {bodies : List ClassBody}
    {written : List Text} (h : (w.writeBodies out bodies).1.result = .ok written)
    (hd : (bodies.map fun b => w.place (b.file.path out)).Nodup) :
    Frame (bodies.map fun b => w.place (b.file.path out)) w (w.writeBodies out bodies).2 ∧
      ∀ b ∈ bodies, (w.writeBodies out bodies).2.read (b.file.path out) =
        .ok (Utf8.encode b.render) :=
  ⟨frame_of_writeBodies h, Conversion.read_writeBodies lawful h hd⟩

theorem Catalog.WellFormed.eq_of_file {c : Catalog} (hc : c.WellFormed) {b d : ClassBody}
    (hb : b ∈ c.bodies) (hd : d ∈ c.bodies) (h : b.file = d.file) : b = d :=
  Option.some.inj ((hc.body?_of_mem hb).symm.trans (h ▸ hc.body?_of_mem hd))

theorem Catalog.WellFormed.nodup_place {c : Catalog} (hc : c.WellFormed)
    (hflat : ∀ b ∈ c.bodies, b.file.IsFlat) (w : Workspace) (out : Text) :
    (c.bodies.map fun b => w.place (b.file.path out)).Nodup := by
  refine List.Nodup.map_on (fun b hb d hd he => ?_) hc.nodup_bodies
  apply hc.eq_of_file hb hd
  exact ClassFile.place_path_inj (hc.bodies b hb).named (hflat b hb) (hc.bodies d hd).named
    (hflat d hd) he

/-- Where the class files of a session are written with success, each has a path of its own and
holds the text of its body; of all else, a file keeps its content, and what is new is a directory.
-/
theorem written_files {s : Session} (hs : s.Reachable)
    (hflat : ∀ b ∈ s.catalog.bodies, b.file.IsFlat) {w : Workspace} {out : Text}
    {written : List Text} (h : (w.writeBodies out s.catalog.bodies).1.result = .ok written) :
    let next := (w.writeBodies out s.catalog.bodies).2
    (∀ b ∈ s.catalog.bodies, ∀ d ∈ s.catalog.bodies,
        b.file.path out = d.file.path out → b = d) ∧
      s.catalog.bodies.Pairwise (fun b d => b.file.before d.file = true) ∧
      written = s.catalog.bodies.map (fun b => b.file.path out) ∧
      written.Nodup ∧
      (∀ b ∈ s.catalog.bodies, next.read (b.file.path out) = .ok (Utf8.encode b.render)) ∧
      (∀ path content, w.place path ∉ written.map w.place → w.read path = .ok content →
        next.read path = .ok content) ∧
      ∀ place, place ∉ written.map w.place → next.tree.get? place = w.tree.get? place ∨
        w.tree.get? place = none ∧ next.tree.get? place = some .directory := by
  intro next
  have hc := hs.wellFormed
  have hplaces : ∀ b ∈ s.catalog.bodies, ∀ d ∈ s.catalog.bodies,
      w.place (b.file.path out) = w.place (d.file.path out) → b = d := by
    intro b hb d hd he
    apply hc.eq_of_file hb hd
    exact ClassFile.place_path_inj (hc.bodies b hb).named (hflat b hb) (hc.bodies d hd).named
      (hflat d hd) he
  have hpaths : ∀ b ∈ s.catalog.bodies, ∀ d ∈ s.catalog.bodies,
      b.file.path out = d.file.path out → b = d :=
    fun b hb d hd he => hplaces b hb d hd (congrArg w.place he)
  obtain ⟨hframe, hreads⟩ :=
    Workspace.frame_writeBodies h (List.Nodup.map_on hplaces hc.nodup_bodies)
  have hwritten := Workspace.written_of_writeBodies h
  have hmap : s.catalog.bodies.map (fun b => w.place (b.file.path out)) = written.map w.place := by
    rw [hwritten, List.map_map]
    rfl
  rw [hmap] at hframe
  refine ⟨hpaths, hc.pairwise_bodies, hwritten, ?_, hreads, ?_, hframe.others⟩
  · rw [hwritten]
    exact List.Nodup.map_on hpaths hc.nodup_bodies
  · exact fun path content hp hr => hframe.read hr hp

def twoFiles : Session :=
  (({} : Session).addAll
    [⟨.member, ClassFile.parse? "Engine.Actor", "float   Speed;   // 0x0", 1⟩,
      ⟨.member, ClassFile.parse? "Core.Object", "int   Flags;   // 0x0", 2⟩]).1

def oldOutput : Workspace :=
  (Workspace.install {} "out/Core/Classes/Object.uc" (Utf8.encode "var int Old;\n")).install
    "out/notes.txt" (Utf8.encode "kept")

theorem written_files_two :
    twoFiles.Reachable ∧ (∀ b ∈ twoFiles.catalog.bodies, b.file.IsFlat) ∧
    (oldOutput.writeBodies "out" twoFiles.catalog.bodies).1.result =
      .ok ["out/Core/Classes/Object.uc", "out/Engine/Classes/Actor.uc"] ∧
    (oldOutput.writeBodies "out" twoFiles.catalog.bodies).2.read "out/Core/Classes/Object.uc" =
      .ok (Utf8.encode "var int Flags;\n") ∧
    (oldOutput.writeBodies "out" twoFiles.catalog.bodies).2.read "out/notes.txt" =
      .ok (Utf8.encode "kept") := by
  have hreach : twoFiles.Reachable := by
    apply Session.Reachable.start.addAll
    intro f hf owner ho
    simp only [List.mem_cons, List.not_mem_nil, or_false] at hf
    rcases hf with rfl | rfl
    · exact ⟨"Engine.Actor", ho⟩
    · exact ⟨"Core.Object", ho⟩
  have hbodies : twoFiles.catalog.bodies =
      [⟨⟨"Core", "Object"⟩, [], [⟨some ⟨"Core", "Object"⟩, "Flags", "int", .empty⟩]⟩,
        ⟨⟨"Engine", "Actor"⟩, [], [⟨some ⟨"Engine", "Actor"⟩, "Speed", "float", .empty⟩]⟩] := by
    decide +kernel
  have hflat : ∀ b ∈ twoFiles.catalog.bodies, b.file.IsFlat := by
    rw [hbodies]
    intro b hb
    simp only [List.mem_cons, List.not_mem_nil, or_false] at hb
    rcases hb with rfl | rfl <;> exact ⟨by decide, by decide⟩
  have hresult : (oldOutput.writeBodies "out" twoFiles.catalog.bodies).1.result =
      .ok ["out/Core/Classes/Object.uc", "out/Engine/Classes/Actor.uc"] := by
    have hsome : (oldOutput.writeBodies "out" twoFiles.catalog.bodies).1.result.toOption =
        some (["out/Core/Classes/Object.uc", "out/Engine/Classes/Actor.uc"] : List Text) := by
      decide +kernel
    cases hr : (oldOutput.writeBodies "out" twoFiles.catalog.bodies).1.result with
    | error e =>
      rw [hr] at hsome
      cases hsome
    | ok written =>
      rw [hr] at hsome
      cases hsome
      rfl
  obtain ⟨-, -, -, -, hreads, hothers, -⟩ := written_files hreach hflat hresult
  have hold : oldOutput.read "out/notes.txt" = .ok (Utf8.encode "kept") := rfl
  refine ⟨hreach, hflat, hresult, ?_, ?_⟩
  · have hobject := hreads ⟨⟨"Core", "Object"⟩, [],
      [⟨some ⟨"Core", "Object"⟩, "Flags", "int", .empty⟩]⟩ (hbodies ▸ .head _)
    exact hobject
  · exact hothers _ _ (by decide +kernel) hold

end UnrealDecl
