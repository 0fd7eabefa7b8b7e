import Mathlib.Algebra.GroupWithZero.Nat
import UnrealDecl.Proofs.Conversion.Execution
import UnrealDecl.Proofs.Conversion.Filing
import UnrealDecl.Proofs.Header.Specification
import UnrealDecl.Toml.Config

namespace UnrealDecl

def FragmentTally.total (t : FragmentTally) : Nat :=
  t.converted + t.invalid + t.unsupported + t.orphaned

theorem FragmentTally.total_reject (t : FragmentTally) (e : DeclError) :
    (t.reject e).total = t.total + 1 := by
  rw [reject]
  split <;> simp only [total] <;> omega

theorem FragmentTally.converted_reject (t : FragmentTally) (e : DeclError) :
    (t.reject e).converted = t.converted := by
  rw [reject]
  split <;> rfl

theorem FragmentTally.orphaned_reject (t : FragmentTally) (e : DeclError) :
    (t.reject e).orphaned = t.orphaned := by
  rw [reject]
  split <;> rfl

namespace Catalog

@[simp] theorem size_nil : (Catalog.mk []).size = 0 := rfl

@[simp] theorem size_cons (key : ClassFile) (b : ClassBody)
    (units : List (ClassFile × ClassBody)) :
    (Catalog.mk ((key, b) :: units)).size = b.size + (Catalog.mk units).size := rfl

theorem size_eq_sum (c : Catalog) : c.size = (c.bodies.map ClassBody.size).sum := by
  rw [size]
  induction c.bodies with
  | nil => rfl
  | cons b bodies ih => rw [List.foldr_cons, ih, List.map_cons, List.sum_cons]

theorem size_modify {f : ClassBody → ClassBody} (hf : ∀ b, (f b).size = b.size + 1)
    (c : Catalog) (key : ClassFile) : (c.modify key f).size = c.size + 1 := by
  obtain ⟨units⟩ := c
  rw [modify]
  induction units with
  | nil =>
    rw [modifyUnits, size_cons, hf]
    rfl
  | cons unit units ih =>
    obtain ⟨other, b⟩ := unit
    rw [modifyUnits]
    split
    · rw [size_cons, size_cons, hf]
      omega
    · split
      · rw [size_cons, hf]
        simp only [ClassBody.size, List.length_nil]
        omega
      · rw [size_cons, size_cons, ih]
        omega

theorem size_insert {c : Catalog} {d : Declaration} (h : d.owner?.isSome) :
    (c.insert d).size = c.size + 1 := by
  have hadd : ∀ b, (d.addTo b).size = b.size + 1 := by
    intro b
    cases d <;>
      simp [Declaration.addTo, ClassBody.addEnumeration, ClassBody.addVariable, ClassBody.size] <;>
      omega
  obtain ⟨owner, ho⟩ := Option.isSome_iff_exists.1 h
  rw [insert, ho]
  exact size_modify hadd c owner

theorem size_applyBody (skips : SkipList) (key : ClassFile) (b : ClassBody) :
    (skips.applyBody key b).size + skips.countBody key b = b.size := by
  have hvars := b.vars.length_eq_countP_add_countP fun v => skips.skips key v.name
  have hkept : (b.vars.filter fun v => !skips.skips key v.name).length =
      b.vars.countP fun v => ¬ skips.skips key v.name = true := by
    rw [List.countP_eq_length_filter]
    congr 1
    simp
  simp only [SkipList.applyBody, SkipList.countBody, ClassBody.size, hkept]
  omega

theorem size_of_isEmpty {b : ClassBody} (h : b.isEmpty = true) : b.size = 0 := by
  simp only [ClassBody.isEmpty, Bool.and_eq_true, List.isEmpty_iff] at h
  rw [ClassBody.size, h.1, h.2]
  rfl

theorem size_apply (skips : SkipList) (c : Catalog) :
    (skips.apply c).size + skips.countSkipped c = c.size := by
  obtain ⟨units⟩ := c
  induction units with
  | nil => rfl
  | cons unit units ih =>
    obtain ⟨key, b⟩ := unit
    have hcount : skips.countSkipped ⟨(key, b) :: units⟩ =
        skips.countBody key b + skips.countSkipped ⟨units⟩ := rfl
    have hsize : (skips.apply ⟨(key, b) :: units⟩).size =
        (skips.applyBody key b).size + (skips.apply ⟨units⟩).size := by
      simp only [SkipList.apply, List.map_cons, List.filter_cons]
      split
      · rfl
      · rename_i hempty
        rw [size_of_isEmpty (by simpa using hempty), Nat.zero_add]
    rw [hcount, hsize, size_cons, ← ih, ← size_applyBody skips key b]
    omega

end Catalog

namespace Session

theorem total_add (s : Session) (f : Fragment) :
    (s.add f).1.fragments.total = s.fragments.total + 1 := by
  rcases s.add_cases f with ⟨e, -, -, hs⟩ | ⟨-, -, -, hs⟩ | ⟨d, -, -, hs⟩
  · rw [hs]
    exact s.fragments.total_reject e
  · rw [hs]
    rfl
  · rw [hs]
    simp only [FragmentTally.total]
    omega

theorem total_addAll (s : Session) (fs : List Fragment) :
    (s.addAll fs).1.fragments.total = s.fragments.total + fs.length := by
  induction fs generalizing s with
  | nil => rfl
  | cons f fs ih =>
    rw [addAll_cons, ih, total_add, List.length_cons]
    omega

/-- Every declaration that was counted as converted is in the catalog. -/
def Balanced (s : Session) : Prop :=
  s.fragments.converted = s.catalog.size

theorem balanced_empty : Balanced {} := rfl

theorem Balanced.add {s : Session} (h : s.Balanced) (f : Fragment) : (s.add f).1.Balanced := by
  rw [Balanced] at h ⊢
  rcases s.add_cases f with ⟨e, -, -, hs⟩ | ⟨-, -, -, hs⟩ | ⟨d, -, ho, hs⟩
  · rw [hs, FragmentTally.converted_reject, h]
  · rw [hs, h]
  · rw [hs, Catalog.size_insert ho, h]

theorem Balanced.addAll {s : Session} (h : s.Balanced) (fs : List Fragment) :
    (s.addAll fs).1.Balanced := by
  induction fs generalizing s with
  | nil => exact h
  | cons f fs ih => exact ih (h.add f)

theorem orphaned_addAll (s : Session) {fs : List Fragment}
    (h : ∀ f ∈ fs, f.kind = .member → f.owner ≠ none) :
    (s.addAll fs).1.fragments.orphaned = s.fragments.orphaned := by
  induction fs generalizing s with
  | nil => rfl
  | cons f fs ih =>
    rw [addAll_cons, ih _ fun g hg => h g (.tail _ hg)]
    rcases s.add_cases f with ⟨e, -, -, hs⟩ | ⟨hk, ho, -, -⟩ | ⟨d, -, -, hs⟩
    · rw [hs, FragmentTally.orphaned_reject]
    · exact absurd ho (h f (.head _) hk)
    · rw [hs]

theorem tokens_add (s : Session) (f : Fragment) :
    (s.add f).1.tokens.total = s.tokens.total + f.unknownFlags.length := by
  rcases s.add_cases f with ⟨e, hr, -, hs⟩ | ⟨-, -, -, hs⟩ | ⟨d, -, -, hs⟩
  · rw [hs, Fragment.unknownFlags_of_error hr]
    rfl
  · rw [hs, TokenTally.total_pushAll, Fragment.unknown_read]
  · rw [hs, TokenTally.total_pushAll, Fragment.unknown_read]

theorem tokens_addAll (s : Session) (fs : List Fragment) :
    (s.addAll fs).1.tokens.total =
      s.tokens.total + (fs.flatMap Fragment.unknownFlags).length := by
  induction fs generalizing s with
  | nil => rfl
  | cons f fs ih =>
    rw [addAll_cons, ih, tokens_add, List.flatMap_cons, List.length_append]
    omega

end Session

theorem scanned_owner {contents : List Bytes} {f : Fragment}
    (h : f ∈ Conversion.scanned contents) (hk : f.kind = .member) : f.owner ≠ none := by
  obtain ⟨bytes, -, hf⟩ := List.mem_flatMap.1 h
  obtain ⟨owner, dotted, ho, -⟩ := Header.exists_owner_of_mem hf hk
  rw [ho]
  exact Option.some_ne_none owner

/-- A conversion that succeeds accounts for every fragment of its headers: it was converted or it
failed, and those converted were skipped or are in the class files that were written. -/
theorem summary_accounts [ConfigFormat] :
    (∀ (w : Workspace) (configPath : Text) (summary : Summary),
      (w.convert configPath).1.result = .ok summary →
      ∃ config contents bodies,
        w.config configPath = .ok config ∧
        w.contents (Conversion.directoryOf configPath) config.inputs = .ok contents ∧
        bodies = ((({} : Session).addAll (Conversion.scanned contents)).1.skip
          config.skip).1.catalog.bodies ∧
        (w.writeBodies (Conversion.outputOf configPath config) bodies).1.result =
          .ok summary.written ∧
        (w.writeBodies (Conversion.outputOf configPath config) bodies).2 =
          (w.convert configPath).2 ∧
        summary.converted + summary.failed = (Conversion.scanned contents).length ∧
        summary.orphaned = 0 ∧
        summary.skipped ≤ summary.converted ∧
        summary.converted - summary.skipped = (bodies.map ClassBody.size).sum ∧
        summary.written =
          bodies.map (fun b => b.file.path (Conversion.outputOf configPath config)) ∧
        summary.unknownTokens =
          ((Conversion.scanned contents).flatMap Fragment.unknownFlags).length) ∧
    ∀ fs : List Fragment,
      let s := (({} : Session).addAll fs).1
      s.fragments.converted + s.fragments.invalid + s.fragments.unsupported +
          s.fragments.orphaned = fs.length ∧
        s.fragments.converted = s.catalog.size := by
  constructor
  · intro w configPath summary h
    obtain ⟨config, contents, hconfig, hcontents, hresult, hw, hsummary⟩ := Workspace.convert_ok h
    refine ⟨config, contents, _, hconfig, hcontents, rfl, hresult, hw, ?_⟩
    have htotal := ({} : Session).total_addAll (Conversion.scanned contents)
    have horphan := ({} : Session).orphaned_addAll
      fun f (hf : f ∈ Conversion.scanned contents) => scanned_owner hf
    have htokens := ({} : Session).tokens_addAll (Conversion.scanned contents)
    have hbalance := Session.balanced_empty.addAll (Conversion.scanned contents)
    generalize (({} : Session).addAll (Conversion.scanned contents)).1 = s at *
    have hsize := Catalog.size_apply config.skip s.catalog
    rw [← hbalance] at hsize
    have hconverted : summary.converted = s.fragments.converted := by rw [hsummary]; rfl
    have hfailed : summary.failed = s.fragments.invalid + s.fragments.unsupported := by
      rw [hsummary]; rfl
    have horphaned : summary.orphaned = s.fragments.orphaned := by rw [hsummary]; rfl
    have hskipped : summary.skipped = config.skip.countSkipped s.catalog := by
      rw [hsummary]; rfl
    have hunknown : summary.unknownTokens = s.tokens.total := by rw [hsummary]; rfl
    have hbodies : ((s.skip config.skip).1.catalog.bodies.map ClassBody.size).sum =
        (config.skip.apply s.catalog).size := (Catalog.size_eq_sum _).symm
    have hno : s.fragments.orphaned = 0 := horphan
    have hall : s.fragments.total = (Conversion.scanned contents).length :=
      htotal.trans (Nat.zero_add _)
    rw [FragmentTally.total] at hall
    refine ⟨by omega, by omega, by omega, by omega, Workspace.written_of_writeBodies hresult, ?_⟩
    rw [hunknown, htokens]
    exact Nat.zero_add _
  · intro fs s
    have htotal := ({} : Session).total_addAll fs
    have hbalance : s.Balanced := Session.balanced_empty.addAll fs
    exact ⟨htotal.trans (Nat.zero_add _), hbalance⟩

def actorConfig : Text :=
  "[convert]\ninput = [\"a.h\"]\noutput = \"out\"\nskip.variables = [\"Actor.Owner\"]\n"

def actorHeader : Text :=
  Text.unlines ["// Class Engine.Actor", "class AActor*   Owner;   // 0x0",
    "float   Speed;   // 0x0 (0x4) [0x0] ( CPF_Interp )", "FScriptDelegate   OnTick;   // 0x0"]

def actorWorkspace : Workspace :=
  (Workspace.install {} "c.toml" (Utf8.encode actorConfig)).install "a.h" (Utf8.encode actorHeader)

theorem summary_accounts_actor :
    (actorWorkspace.convert "c.toml").1.result =
      .ok ⟨["./out/Engine/Classes/Actor.uc"], 2, 1, 0, 1, 1⟩ ∧
    ∃ config contents, ∃ bodies : List ClassBody, actorWorkspace.config "c.toml" = .ok config ∧
      actorWorkspace.contents "." config.inputs = .ok contents ∧
      2 + 1 = (Conversion.scanned contents).length ∧
      2 - 1 = (bodies.map ClassBody.size).sum ∧
      (["./out/Engine/Classes/Actor.uc"] : List Text) =
        bodies.map (fun b => b.file.path (Conversion.outputOf "c.toml" config)) ∧
      1 = ((Conversion.scanned contents).flatMap Fragment.unknownFlags).length := by
  have hresult : (actorWorkspace.convert "c.toml").1.result =
      .ok ⟨["./out/Engine/Classes/Actor.uc"], 2, 1, 0, 1, 1⟩ := by
    have hsome : (actorWorkspace.convert "c.toml").1.result.toOption =
        some ⟨["./out/Engine/Classes/Actor.uc"], 2, 1, 0, 1, 1⟩ := by decide +kernel
    cases hr : (actorWorkspace.convert "c.toml").1.result with
    | error e =>
      rw [hr] at hsome
      cases hsome
    | ok summary =>
      rw [hr] at hsome
      cases hsome
      rfl
  refine ⟨hresult, ?_⟩
  obtain ⟨config, contents, bodies, hconfig, hcontents, -, -, -, hall, -, -, hsize, hpaths,
    htokens⟩ := summary_accounts.1 _ _ _ hresult
  exact ⟨config, contents, bodies, hconfig, hcontents, hall, hsize, hpaths, htokens⟩

end UnrealDecl
