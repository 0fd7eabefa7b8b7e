import UnrealDecl.Proofs.Conversion.Writing
import UnrealDecl.Toml.Config

namespace UnrealDecl

theorem ClassBody.mem_split {bodies before after : List ClassBody} {stopped b : ClassBody}
    (hs : bodies.Pairwise fun a d => a.file.before d.file = true)
    (hsplit : bodies = before ++ stopped :: after) (hb : b ∈ bodies) :
    (b.file.before stopped.file = true → b ∈ before) ∧
      (stopped.file.before b.file = true → b ∈ after) := by
  have hasymm : ∀ {a d : ClassFile}, a.before d = true → d.before a = true → False :=
    fun had hda => ClassFile.ne_of_before (ClassFile.before_trans had hda) rfl
  rw [hsplit, List.pairwise_append, List.pairwise_cons] at hs
  obtain ⟨-, ⟨hafter, -⟩, hbefore⟩ := hs
  rw [hsplit, List.mem_append, List.mem_cons] at hb
  rcases hb with hb | rfl | hb
  · exact ⟨fun _ => hb, fun h => (hasymm h (hbefore b hb stopped (.head _))).elim⟩
  · exact ⟨fun h => (hasymm h h).elim, fun h => (hasymm h h).elim⟩
  · exact ⟨fun h => (hasymm h (hafter b hb)).elim, fun _ => hb⟩

open Conversion (directoryOf)

/-- What keeps a conversion from reading, in the files as they are: the configuration cannot be
read, or is no text, or is none; or one of the headers is the first that cannot be read. -/
inductive Workspace.Unreadable [ConfigFormat] (w : Workspace) (path : Text) : RunError → Prop
  | config {cause : FileError} (failed : w.read path = .error cause) :
      Unreadable w path (.read path cause)
  | binary {bytes : Bytes} (read : w.read path = .ok bytes)
      (failed : Utf8.decode? bytes = none) : Unreadable w path (.read path .notText)
  | malformed {bytes : Bytes} {text : Text} (read : w.read path = .ok bytes)
      (decoded : Utf8.decode? bytes = some text) (failed : ConfigFormat.parse? text = none) :
      Unreadable w path (.config path)
  | header {config : Config} {before after : List Text} {input : Text} {cause : FileError}
      (read : w.config path = .ok config) (inputs : config.inputs = before ++ input :: after)
      (earlier : ∀ other ∈ before, ∃ bytes,
        w.read (Path.join (directoryOf path) other) = .ok bytes)
      (failed : w.read (Path.join (directoryOf path) input) = .error cause) :
      Unreadable w path (.read (Path.join (directoryOf path) input) cause)

namespace Workspace

theorem Unreadable.of_config [ConfigFormat] {w : Workspace} {path : Text} {e : RunError}
    (h : w.config path = .error e) : w.Unreadable path e := by
  rw [Workspace.config] at h
  cases hr : w.read path with
  | error cause =>
    rw [hr] at h
    cases h
    exact .config hr
  | ok bytes =>
    rw [hr] at h
    dsimp only at h
    cases hd : Utf8.decode? bytes with
    | none =>
      rw [hd] at h
      cases h
      exact .binary hr hd
    | some text =>
      rw [hd] at h
      dsimp only at h
      split at h
      · rename_i hp
        cases h
        exact .malformed hr hd hp
      · cases h

theorem exists_of_contents_error {w : Workspace} {dir : Text} {inputs : List Text} {e : RunError}
    (h : w.contents dir inputs = .error e) :
    ∃ before input after cause, inputs = before ++ input :: after ∧
      (∀ other ∈ before, ∃ bytes, w.read (Path.join dir other) = .ok bytes) ∧
      w.read (Path.join dir input) = .error cause ∧ e = .read (Path.join dir input) cause := by
  induction inputs with
  | nil => cases h
  | cons first inputs ih =>
    rw [contents] at h
    cases hr : w.read (Path.join dir first) with
    | error cause =>
      rw [hr] at h
      cases h
      exact ⟨[], first, inputs, cause, rfl, by simp, hr, rfl⟩
    | ok bytes =>
      rw [hr] at h
      cases hc : w.contents dir inputs with
      | ok contents =>
        rw [hc] at h
        cases h
      | error e' =>
        rw [hc] at h
        cases h
        obtain ⟨before, input, after, cause, rfl, hbefore, hinput, he⟩ := ih hc
        refine ⟨first :: before, input, after, cause, rfl, ?_, hinput, he⟩
        intro other hm
        rcases List.mem_cons.1 hm with rfl | hm
        · exact ⟨bytes, hr⟩
        · exact hbefore other hm

theorem Unreadable.of_contents [ConfigFormat] {w : Workspace} {path : Text} {config : Config}
    {e : RunError} (hc : w.config path = .ok config)
    (h : w.contents (directoryOf path) config.inputs = .error e) : w.Unreadable path e := by
  obtain ⟨before, input, after, cause, hinputs, hbefore, hinput, rfl⟩ := exists_of_contents_error h
  exact .header hc hinputs hbefore hinput

end Workspace

namespace Conversion

theorem error_of_map_error {α β : Type} {f : α → β} {result : Except RunError α} {e : RunError}
    (h : result.map f = .error e) : result = .error e := by
  cases result with
  | error e' =>
    cases h
    rfl
  | ok value => cases h

section Lawful

variable {σ : Type} [FileSystem (StateM σ)] {view : σ → Workspace}

/-- Writing some bodies stops at one of them: those before it are written, and it is not. -/
structure StopsAt (s : σ) (out : Text) (before : List ClassBody) (stopped : ClassBody)
    (e : RunError) (next : σ) : Prop where
  wrote : ∃ written, ((writeBodies (m := StateM σ) out before).run s).1.result = .ok written
  failed : (writeBody (m := StateM σ) (stopped.file.path out) stopped).run
    ((writeBodies (m := StateM σ) out before).run s).2 = (.error e, next)

theorem exists_stopsAt {s : σ} {out : Text} {bodies : List ClassBody} {e : RunError}
    (h : ((writeBodies (m := StateM σ) out bodies).run s).1.result = .error e) :
    ∃ before stopped after, bodies = before ++ stopped :: after ∧
      StopsAt s out before stopped e ((writeBodies (m := StateM σ) out bodies).run s).2 := by
  induction bodies generalizing s with
  | nil => cases h
  | cons b bodies ih =>
    rcases writeBodies_cons s out b bodies with ⟨e', hb, hr, hs⟩ | ⟨hb, hr, hs⟩
    · cases h.symm.trans hr
      exact ⟨[], b, bodies, rfl, ⟨[], rfl⟩, Prod.ext hb hs.symm⟩
    · obtain ⟨before, stopped, after, rfl, ⟨written, hwritten⟩, hfailed⟩ :=
        ih (error_of_map_error (hr.symm.trans h))
      refine ⟨b :: before, stopped, after, rfl, ?_⟩
      rcases writeBodies_cons s out b before with ⟨e', hb', -⟩ | ⟨-, hr', hs'⟩
      · cases hb.symm.trans hb'
      · rw [hwritten] at hr'
        refine ⟨⟨_, hr'⟩, ?_⟩
        rw [hs', hs]
        exact hfailed

theorem StopsAt.blamed (h : FileSystem.Lawful view) {s next : σ} {out : Text}
    {before : List ClassBody} {stopped : ClassBody} {e : RunError}
    (hs : StopsAt s out before stopped e next) :
    ∃ blamed cause, e = .write blamed cause ∧
      blamed ∈ [(Path.parent? (stopped.file.path out)).getD [], stopped.file.path out] := by
  obtain ⟨-, -, hblamed⟩ := frame_writeBody h ((writeBodies (m := StateM σ) out before).run s).2
    (stopped.file.path out) stopped
  rw [hs.failed] at hblamed
  exact hblamed e rfl

/-- Where writing bodies to different places stops at one of them, those before it hold their text,
and the files of those after it are as they were. -/
theorem StopsAt.frame (h : FileSystem.Lawful view) {s next : σ} {out : Text}
    {before after : List ClassBody} {stopped : ClassBody} {e : RunError}
    (hs : StopsAt s out before stopped e next)
    (hd : ((before ++ stopped :: after).map fun b => (view s).place (b.file.path out)).Nodup) :
    (∀ b ∈ before, (view next).read (b.file.path out) = .ok (Utf8.encode b.render)) ∧
      ∀ b ∈ after, ∀ content,
        (view next).tree.get? ((view s).place (b.file.path out)) = some (.file content) ↔
          (view s).tree.get? ((view s).place (b.file.path out)) = some (.file content) := by
  obtain ⟨⟨written, hwritten⟩, hfailed⟩ := hs
  rw [List.map_append, List.map_cons, List.nodup_append] at hd
  obtain ⟨hbefore, hafter, hapart⟩ := hd
  rw [List.nodup_cons] at hafter
  have hframe := frame_writeBodies h hwritten
  have hreads := read_writeBodies h hwritten hbefore
  obtain ⟨hlast, -, -⟩ := frame_writeBody h ((writeBodies (m := StateM σ) out before).run s).2
    (stopped.file.path out) stopped
  rw [hfailed, hframe.place] at hlast
  refine ⟨fun b hb => ?_, fun b hb content => ?_⟩
  · apply hlast.read (hreads b hb)
    rw [hframe.place, List.mem_singleton]
    exact hapart _ (List.mem_map_of_mem hb) _ (.head _)
  · apply (hframe.trans hlast).file_iff
    have hmem := List.mem_map_of_mem (f := fun b => (view s).place (b.file.path out)) hb
    rw [List.mem_append, List.mem_singleton, not_or]
    refine ⟨fun hm => hapart _ hm _ (.tail _ hmem) rfl, fun he => hafter.1 (he ▸ hmem)⟩

/-- A conversion that fails cannot read something, and changes nothing; or it cannot write, and
stops at one class file: those before it are written, and those after it are as they were. -/
theorem run_failure [ConfigFormat] (h : FileSystem.Lawful view) (s : σ) (path : Text) {e : RunError}
    (he : ((run (m := StateM σ) path).run s).1.result = .error e) :
    let next := ((run (m := StateM σ) path).run s).2
    (next = s ∧ (view s).Unreadable path e) ∨
      ∃ blamed cause config contents before stopped after,
        e = .write blamed cause ∧ (view s).config path = .ok config ∧
        (view s).contents (directoryOf path) config.inputs = .ok contents ∧
        let out := outputOf path config
        let bodies := (filed config.skip contents).1.catalog.bodies
        bodies = before ++ stopped :: after ∧ StopsAt s out before stopped e next ∧
        blamed ∈ [(Path.parent? (stopped.file.path out)).getD [], stopped.file.path out] ∧
        ((∀ b ∈ bodies, b.file.IsFlat) → ∀ b ∈ bodies,
          (b.file.before stopped.file = true →
            (view next).read (b.file.path out) = .ok (Utf8.encode b.render)) ∧
          (stopped.file.before b.file = true → ∀ content,
            (view next).tree.get? ((view s).place (b.file.path out)) = some (.file content) ↔
              (view s).tree.get? ((view s).place (b.file.path out)) =
                some (.file content))) := by
  intro next
  rcases run_cases h s path with ⟨e', hconfig, hr, hs⟩ |
    ⟨config, hconfig, ⟨e', hcontents, hr, hs⟩ | ⟨contents, hcontents, hr, hs⟩⟩
  · cases he.symm.trans hr
    exact .inl ⟨hs, .of_config hconfig⟩
  · cases he.symm.trans hr
    exact .inl ⟨hs, .of_contents hconfig hcontents⟩
  · obtain ⟨before, stopped, after, hbodies, hstops⟩ :=
      exists_stopsAt (error_of_map_error (hr.symm.trans he))
    rw [← hs] at hstops
    obtain ⟨blamed, cause, rfl, hblamed⟩ := hstops.blamed h
    refine .inr ⟨blamed, cause, config, contents, before, stopped, after, rfl, hconfig, hcontents,
      hbodies, hstops, hblamed, fun hflat b hb => ?_⟩
    have hfiled := (reachable_filed config.skip contents).wellFormed
    have hplaces := hfiled.nodup_place hflat (view s) (outputOf path config)
    rw [hbodies] at hplaces
    obtain ⟨hreads, hfiles⟩ := hstops.frame h hplaces
    obtain ⟨hbefore, hafter⟩ := ClassBody.mem_split hfiled.pairwise_bodies hbodies hb
    exact ⟨fun hb' => hreads b (hbefore hb'), fun hb' => hfiles b (hafter hb')⟩

end Lawful

end Conversion

def threeClasses : Text :=
  Text.unlines ["// Class Game.Pawn", "int   Health;   // 0x0", "// Class Core.Object",
    "int   Flags;   // 0x0", "// Class Engine.Actor", "float   Speed;   // 0x0"]

def blockedWorkspace : Workspace :=
  let empty : Workspace := {}
  (((empty.install "c.toml" (Utf8.encode "[convert]\ninput = [\"a.h\"]\noutput = \"out\"\n")).install
    "a.h" (Utf8.encode threeClasses)).install "out/Engine" []).install
    "out/Game/Classes/Pawn.uc" (Utf8.encode "var int Old;\n")

def threeBodies : List ClassBody :=
  [⟨⟨"Core", "Object"⟩, [], [⟨some ⟨"Core", "Object"⟩, "Flags", "int", .empty⟩]⟩,
    ⟨⟨"Engine", "Actor"⟩, [], [⟨some ⟨"Engine", "Actor"⟩, "Speed", "float", .empty⟩]⟩,
    ⟨⟨"Game", "Pawn"⟩, [], [⟨some ⟨"Game", "Pawn"⟩, "Health", "int", .empty⟩]⟩]

theorem run_failure_blocked :
    (blockedWorkspace.convert "c.toml").1.result =
      .error (.write "./out/Engine/Classes" .notDirectory) ∧
    (blockedWorkspace.convert "c.toml").2.read "./out/Core/Classes/Object.uc" =
      .ok (Utf8.encode "var int Flags;\n") ∧
    (blockedWorkspace.convert "c.toml").2.tree.get? ["Pawn.uc", "Classes", "Game", "out"] =
      some (.file (Utf8.encode "var int Old;\n")) := by
  have hresult : (blockedWorkspace.convert "c.toml").1.result =
      .error (.write "./out/Engine/Classes" .notDirectory) := by
    decide +kernel
  have hconfig : blockedWorkspace.config "c.toml" = .ok ⟨["a.h"], "out", {}⟩ := by decide +kernel
  have hcontents : blockedWorkspace.contents "." ["a.h"] = .ok [Utf8.encode threeClasses] := by
    decide +kernel
  have hbodies : (Conversion.filed {} [Utf8.encode threeClasses]).1.catalog.bodies =
      threeBodies := by
    decide +kernel
  have hrun : (Conversion.run (m := StateM Workspace) "c.toml").run blockedWorkspace =
      blockedWorkspace.convert "c.toml" := rfl
  rw [← hrun] at hresult
  rcases Conversion.run_failure Workspace.lawful blockedWorkspace "c.toml" hresult with
    ⟨-, hread⟩ | ⟨blamed, cause, config, contents, before, stopped, after, herror, hconfig',
      hcontents', hsplit, -, hblamed, hunits⟩
  · cases hread
  rw [hrun] at hresult hunits
  cases herror
  cases hconfig.symm.trans hconfig'
  cases hcontents.symm.trans hcontents'
  rw [hbodies] at hsplit hunits
  have hout : Conversion.outputOf "c.toml" ⟨["a.h"], "out", {}⟩ = "./out" := by decide +kernel
  rw [hout] at hblamed hunits
  have hstopped : stopped.file = ⟨"Engine", "Actor"⟩ := by
    have hmem : stopped ∈ threeBodies := by
      rw [hsplit]
      exact List.mem_append_right _ (.head _)
    simp only [threeBodies, List.mem_cons, List.not_mem_nil, or_false] at hmem
    rcases hmem with rfl | rfl | rfl
    · exact absurd hblamed (by decide +kernel)
    · rfl
    · exact absurd hblamed (by decide +kernel)
  rw [hstopped] at hunits
  have hflat : ∀ b ∈ threeBodies, b.file.IsFlat := by
    intro b hb
    simp only [threeBodies, List.mem_cons, List.not_mem_nil, or_false] at hb
    rcases hb with rfl | rfl | rfl <;> exact ⟨by decide, by decide⟩
  have hobject := (hunits hflat _ (.head _)).1 (by decide)
  have hpawn := (hunits hflat _ (.tail _ (.tail _ (.head _)))).2 (by decide)
    (Utf8.encode "var int Old;\n")
  have hfile : ClassFile.path "./out" ⟨"Core", "Object"⟩ = "./out/Core/Classes/Object.uc" := by
    decide +kernel
  have htext : ClassBody.render
      ⟨⟨"Core", "Object"⟩, [], [⟨some ⟨"Core", "Object"⟩, "Flags", "int", .empty⟩]⟩ =
        "var int Flags;\n" := by
    decide +kernel
  have hplace : blockedWorkspace.place (ClassFile.path "./out" ⟨"Game", "Pawn"⟩) =
      ["Pawn.uc", "Classes", "Game", "out"] := by
    decide +kernel
  have hold : blockedWorkspace.tree.get? ["Pawn.uc", "Classes", "Game", "out"] =
      some (.file (Utf8.encode "var int Old;\n")) := by
    decide +kernel
  rw [htext] at hobject
  dsimp only [id] at hobject hpawn
  rw [hfile] at hobject
  rw [hplace] at hpawn
  exact ⟨hresult, hobject, hpawn.2 hold⟩

end UnrealDecl
