import UnrealDecl.Conversion.Run
import UnrealDecl.Proofs.File.Lawful

namespace UnrealDecl

open Conversion

def Conversion.scanned (contents : List Bytes) : List Fragment :=
  contents.flatMap fun bytes => Header.fragments (Utf8.decodeLossy bytes)

/-- What some headers declare, less what is skipped, and how many variables that leaves out. -/
def Conversion.filed (skips : SkipList) (contents : List Bytes) : Session × Nat :=
  (({} : Session).addAll (scanned contents)).1.skip skips

def Conversion.outputOf (configPath : Text) (config : Config) : Text :=
  Path.join (directoryOf configPath) config.output

namespace Workspace

/-- Converts what a configuration names. -/
def convert [ConfigFormat] (w : Workspace) (configPath : Text) : Outcome Summary × Workspace :=
  (Conversion.run (m := StateM Workspace) configPath).run w

def config [ConfigFormat] (w : Workspace) (path : Text) : Except RunError Config :=
  match w.read path with
  | .error e => .error (.read path e)
  | .ok bytes =>
    match Utf8.decode? bytes with
    | none => .error (.read path .notText)
    | some text =>
      match ConfigFormat.parse? text with
      | none => .error (.config path)
      | some config => .ok config

/-- The contents of the headers in a directory, or the first that cannot be read. -/
def contents (w : Workspace) (dir : Text) : List Text → Except RunError (List Bytes)
  | [] => .ok []
  | input :: inputs =>
    match w.read (Path.join dir input) with
    | .error e => .error (.read (Path.join dir input) e)
    | .ok bytes => (w.contents dir inputs).map (bytes :: ·)

def writeBodies (w : Workspace) (out : Text) (bodies : List ClassBody) :
    Outcome (List Text) × Workspace :=
  (Conversion.writeBodies (m := StateM Workspace) out bodies).run w

end Workspace

namespace Conversion

theorem run_bind {σ α β : Type} (x : StateM σ α) (k : α → StateM σ β) (s : σ) :
    (x >>= k).run s = (k (x.run s).1).run (x.run s).2 := rfl

section Lawful

variable {σ : Type} [FileSystem (StateM σ)] {view : σ → Workspace}

theorem run_loadConfig [ConfigFormat] (h : FileSystem.Lawful view) (s : σ) (path : Text) :
    (loadConfig (m := StateM σ) path).run s = ((view s).config path, s) := by
  rw [loadConfig, Workspace.config, run_bind, h.read]
  cases (view s).read path with
  | error e => rfl
  | ok bytes =>
    cases hd : Utf8.decode? bytes with
    | none =>
      simp only [hd]
      rfl
    | some text =>
      simp only [hd]
      cases ConfigFormat.parse? text <;> rfl

theorem run_addHeaders (h : FileSystem.Lawful view) (s : σ) (dir : Text) (session : Session)
    (inputs : List Text) :
    ((addHeaders (m := StateM σ) dir session inputs).run s).2 = s ∧
      ((addHeaders (m := StateM σ) dir session inputs).run s).1.result =
        ((view s).contents dir inputs).map fun contents =>
          (session.addAll (scanned contents)).1 := by
  induction inputs generalizing session with
  | nil => exact ⟨rfl, rfl⟩
  | cons input inputs ih =>
    rw [addHeaders, Workspace.contents, run_bind, h.read]
    cases (view s).read (Path.join dir input) with
    | error e => exact ⟨rfl, rfl⟩
    | ok bytes =>
      let fragments := Header.fragments (Utf8.decodeLossy bytes)
      obtain ⟨hs, hr⟩ := ih (session.addAll fragments).1
      refine ⟨hs, hr.trans ?_⟩
      cases (view s).contents dir inputs with
      | error e => rfl
      | ok contents =>
        have happ := session.addAll_append fragments (scanned contents)
        simp only [Except.map, scanned, List.flatMap_cons] at happ ⊢
        rw [happ]

theorem writeBodies_cons (s : σ) (out : Text) (b : ClassBody) (bodies : List ClassBody) :
    let wrote := (writeBody (m := StateM σ) (b.file.path out) b).run s
    let all := (writeBodies (m := StateM σ) out (b :: bodies)).run s
    (∃ e, wrote.1 = .error e ∧ all.1.result = .error e ∧ all.2 = wrote.2) ∨
      wrote.1 = .ok () ∧
        let rest := (writeBodies (m := StateM σ) out bodies).run wrote.2
        all.1.result = rest.1.result.map (b.file.path out :: ·) ∧ all.2 = rest.2 := by
  intro wrote all
  have hall : all = (writeBodies (m := StateM σ) out (b :: bodies)).run s := rfl
  rw [writeBodies, run_bind] at hall
  cases hb : wrote.1 with
  | error e =>
    rw [hb] at hall
    exact .inl ⟨e, rfl, by rw [hall]; rfl, by rw [hall]; rfl⟩
  | ok done =>
    rw [hb] at hall
    exact .inr ⟨rfl, by rw [hall]; rfl, by rw [hall]; rfl⟩

theorem writeBodies_cons_ok {s : σ} {out : Text} {b : ClassBody} {bodies : List ClassBody}
    {written : List Text}
    (h : ((writeBodies (m := StateM σ) out (b :: bodies)).run s).1.result = .ok written) :
    let wrote := (writeBody (m := StateM σ) (b.file.path out) b).run s
    wrote.1 = .ok () ∧
      ((writeBodies (m := StateM σ) out (b :: bodies)).run s).2 =
        ((writeBodies (m := StateM σ) out bodies).run wrote.2).2 ∧
      ∃ others, written = b.file.path out :: others ∧
        ((writeBodies (m := StateM σ) out bodies).run wrote.2).1.result = .ok others := by
  intro wrote
  rcases writeBodies_cons s out b bodies with ⟨e, -, he, -⟩ | ⟨hb, hr, hs⟩
  · cases h.symm.trans he
  · have hrest := h.symm.trans hr
    refine ⟨hb, hs, ?_⟩
    cases ho : ((writeBodies (m := StateM σ) out bodies).run wrote.2).1.result with
    | error e =>
      rw [ho] at hrest
      cases hrest
    | ok others =>
      rw [ho] at hrest
      cases hrest
      exact ⟨others, rfl, rfl⟩

theorem run_finish (s : σ) (dir : Text) (config : Config) (session : Session) :
    let kept := session.skip config.skip
    let wrote := (writeBodies (m := StateM σ) (Path.join dir config.output)
      kept.1.catalog.bodies).run s
    let finished := (finish (m := StateM σ) dir config session).run s
    finished.1.result = wrote.1.result.map (kept.1.summary kept.2) ∧ finished.2 = wrote.2 := by
  intro kept wrote finished
  have hfinished : finished = (finish (m := StateM σ) dir config session).run s := rfl
  rw [finish, run_bind] at hfinished
  cases hr : wrote.1.result with
  | error e =>
    rw [hr] at hfinished
    exact ⟨by rw [hfinished]; rfl, by rw [hfinished]; rfl⟩
  | ok written =>
    rw [hr] at hfinished
    exact ⟨by rw [hfinished]; rfl, by rw [hfinished]; rfl⟩

/-- A conversion that cannot read its configuration or a header changes nothing; one that can reads
all from the files as they were, and then writes what the skip list leaves. -/
theorem run_cases [ConfigFormat] (h : FileSystem.Lawful view) (s : σ) (path : Text) :
    let ran := (run (m := StateM σ) path).run s
    (∃ e, (view s).config path = .error e ∧ ran.1.result = .error e ∧ ran.2 = s) ∨
      ∃ config, (view s).config path = .ok config ∧
        ((∃ e, (view s).contents (directoryOf path) config.inputs = .error e ∧
            ran.1.result = .error e ∧ ran.2 = s) ∨
          ∃ contents, (view s).contents (directoryOf path) config.inputs = .ok contents ∧
            let kept := filed config.skip contents
            let wrote := (writeBodies (m := StateM σ) (outputOf path config)
              kept.1.catalog.bodies).run s
            ran.1.result = wrote.1.result.map (kept.1.summary kept.2) ∧ ran.2 = wrote.2) := by
  intro ran
  have hran : ran = (run (m := StateM σ) path).run s := rfl
  rw [run, run_bind, run_loadConfig h] at hran
  cases hc : (view s).config path with
  | error e =>
    rw [hc] at hran
    exact .inl ⟨e, rfl, by rw [hran]; rfl, by rw [hran]; rfl⟩
  | ok config =>
    refine .inr ⟨config, rfl, ?_⟩
    rw [hc] at hran
    dsimp only at hran
    obtain ⟨hs, hr⟩ := run_addHeaders h s (directoryOf path) {} config.inputs
    rw [run_bind, hr, hs] at hran
    cases hin : (view s).contents (directoryOf path) config.inputs with
    | error e =>
      rw [hin] at hran
      exact .inl ⟨e, rfl, by rw [hran]; rfl, by rw [hran]; rfl⟩
    | ok contents =>
      rw [hin] at hran
      obtain ⟨hresult, hafter⟩ := run_finish s (directoryOf path) config
        (({} : Session).addAll (scanned contents)).1
      refine .inr ⟨contents, rfl, ?_, ?_⟩
      · rw [hran]
        exact hresult
      · rw [hran]
        exact hafter

end Lawful

end Conversion

namespace Workspace

theorem written_of_writeBodies {w : Workspace} {out : Text} {bodies : List ClassBody}
    {written : List Text} (h : (w.writeBodies out bodies).1.result = .ok written) :
    written = bodies.map fun b => b.file.path out := by
  induction bodies generalizing w written with
  | nil =>
    cases h
    rfl
  | cons b bodies ih =>
    obtain ⟨-, -, others, rfl, hothers⟩ := writeBodies_cons_ok h
    rw [List.map_cons, ← ih hothers]

theorem convert_of_contents [ConfigFormat] {w : Workspace} {path : Text} {config : Config}
    {contents : List Bytes} (hconfig : w.config path = .ok config)
    (hcontents : w.contents (directoryOf path) config.inputs = .ok contents) :
    let kept := filed config.skip contents
    let wrote := w.writeBodies (outputOf path config) kept.1.catalog.bodies
    (w.convert path).1.result = wrote.1.result.map (kept.1.summary kept.2) ∧
      (w.convert path).2 = wrote.2 := by
  rcases run_cases lawful w path with
    ⟨e, hother, -⟩ | ⟨_, hother, ⟨e, hin, -⟩ | ⟨_, hin, hran⟩⟩
  · cases hconfig.symm.trans hother
  · cases hconfig.symm.trans hother
    cases hcontents.symm.trans hin
  · cases hconfig.symm.trans hother
    cases hcontents.symm.trans hin
    exact hran

/-- A conversion that succeeds reads its configuration and every header from the files as they
were, and then writes what the skip list leaves. -/
theorem convert_ok [ConfigFormat] {w : Workspace} {configPath : Text} {summary : Summary}
    (h : (w.convert configPath).1.result = .ok summary) :
    ∃ config contents, w.config configPath = .ok config ∧
      w.contents (directoryOf configPath) config.inputs = .ok contents ∧
      let kept := (({} : Session).addAll (scanned contents)).1.skip config.skip
      let wrote := w.writeBodies (outputOf configPath config) kept.1.catalog.bodies
      wrote.1.result = .ok summary.written ∧ wrote.2 = (w.convert configPath).2 ∧
        summary = kept.1.summary kept.2 summary.written := by
  rcases run_cases lawful w configPath with
    ⟨e, -, he, -⟩ | ⟨config, hconfig, ⟨e, -, he, -⟩ | ⟨contents, hcontents, hr, hs⟩⟩
  · cases h.symm.trans he
  · cases h.symm.trans he
  · refine ⟨config, contents, hconfig, hcontents, ?_⟩
    intro kept wrote
    have hresult : .ok summary = wrote.1.result.map (kept.1.summary kept.2) := h.symm.trans hr
    cases hw : wrote.1.result with
    | error e =>
      rw [hw] at hresult
      cases hresult
    | ok written =>
      rw [hw] at hresult
      cases hresult
      exact ⟨rfl, hs.symm, rfl⟩

end Workspace

end UnrealDecl
