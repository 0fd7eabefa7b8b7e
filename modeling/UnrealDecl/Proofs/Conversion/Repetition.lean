import UnrealDecl.Proofs.Conversion.Writing
import UnrealDecl.Proofs.File.Standing
import UnrealDecl.Toml.Config

namespace UnrealDecl

open Conversion

namespace Workspace

section Frame

variable {w next : Workspace} {places : List Location}

theorem Frame.config [ConfigFormat] (h : Frame places w next) {path : Text} {config : Config}
    (hc : w.config path = .ok config) (hp : w.place path ∉ places) :
    next.config path = .ok config := by
  rw [Workspace.config] at hc ⊢
  cases hr : w.read path with
  | error e =>
    rw [hr] at hc
    cases hc
  | ok bytes =>
    rw [h.read hr hp]
    rw [hr] at hc
    exact hc

theorem Frame.contents (h : Frame places w next) {dir : Text} {inputs : List Text}
    {contents : List Bytes} (hc : w.contents dir inputs = .ok contents)
    (hp : ∀ input ∈ inputs, w.place (Path.join dir input) ∉ places) :
    next.contents dir inputs = .ok contents := by
  induction inputs generalizing contents with
  | nil => exact hc
  | cons input inputs ih =>
    rw [Workspace.contents] at hc ⊢
    cases hr : w.read (Path.join dir input) with
    | error e =>
      rw [hr] at hc
      cases hc
    | ok bytes =>
      rw [hr] at hc
      rw [h.read hr (hp input (.head _))]
      cases hrest : w.contents dir inputs with
      | error e =>
        rw [hrest] at hc
        cases hc
      | ok others =>
        rw [hrest] at hc
        rw [ih hrest fun other ho => hp other (.tail _ ho)]
        exact hc

end Frame

/-- A class file stands at a path, in its directory. -/
structure Prepared (w : Workspace) (path : Text) : Prop where
  directory : w.HasDirectory ((Path.parent? path).getD [])
  file : w.HasFile path

theorem writeBody_cases (w : Workspace) (path : Text) (b : ClassBody) :
    let parent := (Path.parent? path).getD []
    let made := w.makeDirs parent
    let wrote := (writeBody (m := StateM Workspace) path b).run w
    (∃ e, made.1 = .error e ∧ wrote = (.error (.write parent e), made.2)) ∨
      made.1 = .ok () ∧
        ((∃ e, made.2.write path (Utf8.encode b.render) = .error e ∧
            wrote = (.error (.write path e), made.2)) ∨
          ∃ next, made.2.write path (Utf8.encode b.render) = .ok next ∧
            wrote = (.ok (), next)) := by
  intro parent made wrote
  have hwrote : wrote = (writeBody (m := StateM Workspace) path b).run w := rfl
  rw [writeBody, run_bind, run_makeDirs] at hwrote
  cases hm : made.1 with
  | error e =>
    rw [hm] at hwrote
    exact .inl ⟨e, rfl, hwrote⟩
  | ok done =>
    rw [hm] at hwrote
    dsimp only at hwrote
    rw [run_bind, run_write] at hwrote
    refine .inr ⟨rfl, ?_⟩
    cases hw : made.2.write path (Utf8.encode b.render) with
    | error e =>
      rw [hw] at hwrote
      exact .inl ⟨e, rfl, hwrote⟩
    | ok next =>
      rw [hw] at hwrote
      exact .inr ⟨next, rfl, hwrote⟩

namespace Prepared

variable {w : Workspace} {path : Text}

theorem writeBody (h : w.Prepared path) (other : Text) (b : ClassBody) :
    ((Conversion.writeBody (m := StateM Workspace) other b).run w).2.Prepared path where
  directory := (frame_writeBody lawful w other b).1.hasDirectory h.directory
  file := by
    have hmade := h.file.makeDirs ((Path.parent? other).getD [])
    rcases w.writeBody_cases other b with
      ⟨e, -, hwrote⟩ | ⟨-, ⟨e, -, hwrote⟩ | ⟨next, hwrite, hwrote⟩⟩
    · rw [hwrote]
      exact hmade
    · rw [hwrote]
      exact hmade
    · rw [hwrote]
      exact hmade.write hwrite

theorem writeBodies (h : w.Prepared path) (out : Text) (bodies : List ClassBody) :
    (w.writeBodies out bodies).2.Prepared path := by
  induction bodies generalizing w with
  | nil => exact h
  | cons b bodies ih =>
    have hb := h.writeBody (b.file.path out) b
    rw [Workspace.writeBodies]
    rcases writeBodies_cons w out b bodies with ⟨e, -, -, hs⟩ | ⟨-, -, hs⟩
    · rw [hs]
      exact hb
    · rw [hs]
      exact ih hb

theorem writeBody_again (h : w.Prepared path) (b : ClassBody) :
    ((Conversion.writeBody (m := StateM Workspace) path b).run w).1 = .ok () ∧
      w.Alike ((Conversion.writeBody (m := StateM Workspace) path b).run w).2 := by
  obtain ⟨next, hwrite, halike⟩ := h.file.exists_write (Utf8.encode b.render)
  rcases w.writeBody_cases path b with
    ⟨e, hmade, -⟩ | ⟨-, ⟨e, hfailed, -⟩ | ⟨_, hwritten, hwrote⟩⟩
  · rw [h.directory.makeDirs] at hmade
    cases hmade
  · rw [h.directory.makeDirs] at hfailed
    cases hwrite.symm.trans hfailed
  · rw [h.directory.makeDirs] at hwritten
    cases hwrite.symm.trans hwritten
    rw [hwrote]
    exact ⟨rfl, halike⟩

end Prepared

theorem prepared_of_writeBody {w : Workspace} {path : Text} {b : ClassBody}
    (h : ((writeBody (m := StateM Workspace) path b).run w).1 = .ok ()) :
    ((writeBody (m := StateM Workspace) path b).run w).2.Prepared path := by
  rcases w.writeBody_cases path b with
    ⟨e, -, hwrote⟩ | ⟨hmade, ⟨e, -, hwrote⟩ | ⟨next, hwrite, hwrote⟩⟩
  · rw [hwrote] at h
    cases h
  · rw [hwrote] at h
    cases h
  · obtain ⟨hframe, hread⟩ := frame_write hwrite
    rw [hwrote]
    exact ⟨hframe.hasDirectory (hasDirectory_of_makeDirs hmade), _, hread⟩

theorem file_of_writeBody {w : Workspace} {path : Text} {b : ClassBody}
    (h : ((writeBody (m := StateM Workspace) path b).run w).1 = .ok ()) :
    let wrote := (writeBody (m := StateM Workspace) path b).run w
    Frame [w.place path] w wrote.2 ∧
      wrote.2.tree.get? (w.place path) = some (.file (Utf8.encode b.render)) := by
  obtain ⟨hframe, hread, -⟩ := frame_writeBody lawful w path b
  have hfile := get?_place_of_read (hread h)
  rw [hframe.place] at hfile
  exact ⟨hframe, hfile⟩

section Again

variable {w v : Workspace} {out : Text} {bodies : List ClassBody} {written : List Text}

theorem prepared_of_writeBodies (h : (w.writeBodies out bodies).1.result = .ok written) :
    ∀ b ∈ bodies, (w.writeBodies out bodies).2.Prepared (b.file.path out) := by
  induction bodies generalizing w written with
  | nil => nofun
  | cons b bodies ih =>
    obtain ⟨hb, hs, others, -, hothers⟩ := writeBodies_cons_ok h
    rw [Workspace.writeBodies, hs]
    intro d hd
    rcases List.mem_cons.1 hd with rfl | hd
    · exact (prepared_of_writeBody hb).writeBodies out bodies
    · exact ih hothers d hd

theorem writeBodies_again (h : ∀ b ∈ bodies, w.Prepared (b.file.path out)) :
    (∃ written, (w.writeBodies out bodies).1.result = .ok written) ∧
      w.Alike (w.writeBodies out bodies).2 := by
  induction bodies generalizing w with
  | nil => exact ⟨⟨[], rfl⟩, .refl w⟩
  | cons b bodies ih =>
    obtain ⟨hb, halike⟩ := (h b (.head _)).writeBody_again b
    obtain ⟨⟨written, hrest⟩, hafter⟩ :=
      ih fun d hd => (h d (.tail _ hd)).writeBody (b.file.path out) b
    rw [Workspace.writeBodies] at hrest hafter ⊢
    rcases writeBodies_cons w out b bodies with ⟨e, he, -⟩ | ⟨-, hr, hs⟩
    · cases hb.symm.trans he
    · rw [hr, hs, hrest]
      exact ⟨⟨_, rfl⟩, halike.trans hafter⟩

/-- What stands at the places of some bodies after they are written does not depend on what stood
there before. -/
theorem file_of_writeBodies (hhere : v.here = w.here)
    (hw : (w.writeBodies out bodies).1.result = .ok written) {written' : List Text}
    (hv : (v.writeBodies out bodies).1.result = .ok written') :
    ∀ place ∈ bodies.map fun b => w.place (b.file.path out), ∃ content,
      (w.writeBodies out bodies).2.tree.get? place = some (.file content) ∧
        (v.writeBodies out bodies).2.tree.get? place = some (.file content) := by
  induction bodies generalizing w v written written' with
  | nil => nofun
  | cons b bodies ih =>
    obtain ⟨hb, hs, others, -, hothers⟩ := writeBodies_cons_ok hw
    obtain ⟨hb', hs', others', -, hothers'⟩ := writeBodies_cons_ok hv
    obtain ⟨hframe, hfile⟩ := file_of_writeBody hb
    obtain ⟨hframe', hfile'⟩ := file_of_writeBody hb'
    have hrest := frame_of_writeBodies hothers
    have hrest' := frame_of_writeBodies hothers'
    have hlater := ih (hframe'.here.trans (hhere.trans hframe.here.symm)) hothers hothers'
    have hplace : v.place = w.place := funext fun path => by
      rw [Workspace.place, Workspace.place, hhere]
    simp only [hframe.place, hframe'.place, hplace] at hfile' hrest hrest' hlater
    rw [Workspace.writeBodies, Workspace.writeBodies, hs, hs']
    intro place hm
    by_cases hagain : place ∈ bodies.map fun d => w.place (d.file.path out)
    · exact hlater place hagain
    · obtain rfl := (List.mem_cons.1 hm).resolve_right hagain
      exact ⟨_, (hrest.file_iff hagain _).2 hfile, (hrest'.file_iff hagain _).2 hfile'⟩

/-- Bodies that were written can be written again, which changes nothing. -/
theorem writeBodies_twice (h : (w.writeBodies out bodies).1.result = .ok written) :
    let first := (w.writeBodies out bodies).2
    let again := first.writeBodies out bodies
    again.1.result = .ok written ∧ again.2.here = first.here ∧
      ∀ place, again.2.tree.get? place = first.tree.get? place := by
  intro first again
  obtain ⟨⟨written', hagain⟩, halike⟩ := writeBodies_again (prepared_of_writeBodies h)
  have hframe := frame_of_writeBodies h
  have hframe' := frame_of_writeBodies hagain
  refine ⟨?_, halike.here, fun place => ?_⟩
  · exact hagain.trans (by rw [written_of_writeBodies hagain, written_of_writeBodies h])
  · by_cases hm : place ∈ bodies.map fun b => w.place (b.file.path out)
    · obtain ⟨content, hfirst, hsecond⟩ := file_of_writeBodies hframe.here h hagain place hm
      exact hsecond.trans hfirst.symm
    · simp only [hframe.place] at hframe'
      rcases hframe'.others place hm with he | ⟨hnone, hdir⟩
      · exact he
      · have hkinds := halike.kinds place
        rw [hnone, hdir] at hkinds
        cases hkinds

end Again

end Workspace

/-- A conversion that succeeds, and writes neither to its configuration nor to one of its headers,
succeeds again with the same summary and changes nothing. -/
theorem convert_again [ConfigFormat] {w : Workspace} {path : Text} {config : Config}
    {summary : Summary} (hconfig : w.config path = .ok config)
    (hrun : (w.convert path).1.result = .ok summary)
    (hapart : ∀ written ∈ summary.written, w.place written ≠ w.place path ∧
      ∀ input ∈ config.inputs,
        w.place written ≠ w.place (Path.join (directoryOf path) input)) :
    let first := (w.convert path).2
    let again := first.convert path
    again.1.result = .ok summary ∧ again.2.here = first.here ∧
      ∀ place, again.2.tree.get? place = first.tree.get? place := by
  intro first again
  obtain ⟨_, contents, hread, hcontents, hwrote, hfirst, hsummary⟩ := Workspace.convert_ok hrun
  cases hconfig.symm.trans hread
  have hframe := Workspace.frame_of_writeBodies hwrote
  have htwice := Workspace.writeBodies_twice hwrote
  rw [hfirst] at hframe htwice
  have hplaces : ∀ place ∈ (filed config.skip contents).1.catalog.bodies.map
      (fun b => w.place (b.file.path (outputOf path config))),
      ∃ written ∈ summary.written, w.place written = place := by
    intro place hm
    obtain ⟨b, hb, rfl⟩ := List.mem_map.1 hm
    rw [Workspace.written_of_writeBodies hwrote]
    exact ⟨_, List.mem_map_of_mem hb, rfl⟩
  have hconfig' : first.config path = .ok config := by
    refine hframe.config hconfig fun hm => ?_
    obtain ⟨written, hw, he⟩ := hplaces _ hm
    exact (hapart written hw).1 he
  have hcontents' : first.contents (directoryOf path) config.inputs = .ok contents := by
    refine hframe.contents hcontents fun input hi hm => ?_
    obtain ⟨written, hw, he⟩ := hplaces _ hm
    exact (hapart written hw).2 input hi he
  obtain ⟨hresult, hafter⟩ := Workspace.convert_of_contents hconfig' hcontents'
  obtain ⟨hwritten, hhere, htree⟩ := htwice
  have hsame : again.2 = _ := hafter
  rw [hsame]
  refine ⟨hresult.trans ?_, hhere, htree⟩
  rw [filed, hwritten, Except.map]
  exact congrArg Except.ok hsummary.symm

def sameFileHeader : Text :=
  Text.unlines ["// Class Core.Object", "int   Flags;   // 0x0", "// Class Core/.Object",
    "float   Speed;   // 0x0"]

def beforeConversion : Workspace :=
  let empty : Workspace := {}
  ((empty.install "c.toml"
    (Utf8.encode "[convert]\ninput = [\"a.h\"]\noutput = \"out\"\n")).install "a.h"
    (Utf8.encode sameFileHeader)).install "out/Core/Classes/Object.uc"
    (Utf8.encode "var int Old;\n")

theorem convert_again_same_file :
    let first := (beforeConversion.convert "c.toml").2
    (first.convert "c.toml").1.result =
      .ok ⟨["./out/Core/Classes/Object.uc", "./out/Core/Classes/Object.uc"], 2, 0, 0, 0, 0⟩ ∧
    first.tree.get? ["Object.uc", "Classes", "Core", "out"] =
      some (.file (Utf8.encode "var float Speed;\n")) ∧
    (first.convert "c.toml").2.tree.get? ["Object.uc", "Classes", "Core", "out"] =
      some (.file (Utf8.encode "var float Speed;\n")) := by
  have hconfig : beforeConversion.config "c.toml" = .ok ⟨["a.h"], "out", {}⟩ := by
    decide +kernel
  have hrun : (beforeConversion.convert "c.toml").1.result =
      .ok ⟨["./out/Core/Classes/Object.uc", "./out/Core/Classes/Object.uc"], 2, 0, 0, 0, 0⟩ := by
    decide +kernel
  have hfile : (beforeConversion.convert "c.toml").2.tree.get?
      ["Object.uc", "Classes", "Core", "out"] =
      some (.file (Utf8.encode "var float Speed;\n")) := by
    decide +kernel
  obtain ⟨hagain, -, htree⟩ := convert_again hconfig hrun (by decide +kernel)
  refine ⟨hagain, hfile, ?_⟩
  rw [htree]
  exact hfile

end UnrealDecl
