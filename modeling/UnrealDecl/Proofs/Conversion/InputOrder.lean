import Mathlib.Data.List.Perm.Basic
import UnrealDecl.Proofs.Conversion.Skipping
import UnrealDecl.Proofs.Conversion.Writing
import UnrealDecl.Proofs.File.Shape
import UnrealDecl.Toml.Config

namespace UnrealDecl

open Conversion

/-- Two bodies of one class file hold the same declarations, each list in an order of its own. -/
structure ClassBody.Shuffled (b d : ClassBody) : Prop where
  file : d.file = b.file
  enumerations : d.enumerations.Perm b.enumerations
  vars : d.vars.Perm b.vars

namespace ClassBody.Shuffled

variable {b d : ClassBody}

theorem size_eq (h : Shuffled b d) : d.size = b.size := by
  rw [size, size, h.enumerations.length_eq, h.vars.length_eq]

theorem isEmpty_eq (h : Shuffled b d) : d.isEmpty = b.isEmpty := by
  rw [isEmpty, isEmpty, h.enumerations.isEmpty_eq, h.vars.isEmpty_eq]

theorem countBody_eq (h : Shuffled b d) (skips : SkipList) (key : ClassFile) :
    skips.countBody key d = skips.countBody key b :=
  h.vars.countP_eq _

theorem applyBody (h : Shuffled b d) (skips : SkipList) (key : ClassFile) :
    Shuffled (skips.applyBody key b) (skips.applyBody key d) where
  file := h.file
  enumerations := h.enumerations
  vars := h.vars.filter _

end ClassBody.Shuffled

namespace Catalog

/-- Two catalogs have the same keys, and under each of them the same declarations. -/
def Shuffled (c d : Catalog) : Prop :=
  List.Forall₂ (fun u v => u.1 = v.1 ∧ ClassBody.Shuffled u.2 v.2) c.units d.units

variable {c d : Catalog}

theorem mem_keys_iff {key : ClassFile} :
    key ∈ c.units.map Prod.fst ↔ (c.body? key).isSome = true := by
  rw [body?, List.lookup_isSome_iff, List.mem_map]
  simp only [beq_iff_eq]
  exact exists_congr fun unit => and_congr_right fun _ => eq_comm

theorem Sorted.shuffled (hc : c.Sorted) (hd : d.Sorted)
    (h : ∀ key, Option.Rel ClassBody.Shuffled (c.body? key) (d.body? key)) : c.Shuffled d := by
  have hkeys : c.units.map Prod.fst = d.units.map Prod.fst := by
    apply ClassFile.eq_of_pairwise id (List.pairwise_map.2 hc) (List.pairwise_map.2 hd)
    intro key
    rw [mem_keys_iff, mem_keys_iff]
    have hrel := h key
    generalize c.body? key = found at *
    generalize d.body? key = found' at *
    cases hrel with
    | none => rfl
    | some _ => rfl
  have hsame : List.Forall₂ (fun u v : ClassFile × ClassBody => u.1 = v.1) c.units d.units := by
    have hmaps : List.Forall₂ Eq (c.units.map Prod.fst) (d.units.map Prod.fst) := by
      rw [hkeys]
      exact List.forall₂_refl _
    rwa [List.forall₂_map_left_iff, List.forall₂_map_right_iff] at hmaps
  refine List.forall₂_iff_zip.2 ⟨hsame.length_eq, fun {u v} hmem => ?_⟩
  obtain ⟨hu, hv⟩ := List.of_mem_zip hmem
  have hkey : u.1 = v.1 := (List.forall₂_iff_zip.1 hsame).2 hmem
  have hrel := h u.1
  rw [hc.body?_of_mem hu, hkey, hd.body?_of_mem hv] at hrel
  cases hrel
  exact ⟨hkey, ‹_›⟩

namespace Shuffled

theorem bodies (h : c.Shuffled d) : List.Forall₂ ClassBody.Shuffled c.bodies d.bodies := by
  rw [Catalog.bodies, Catalog.bodies, List.forall₂_map_left_iff, List.forall₂_map_right_iff]
  exact h.imp fun _ _ hunit => hunit.2

theorem size_eq (h : c.Shuffled d) : d.size = c.size := by
  have hbodies := h.bodies
  rw [size, size]
  generalize c.bodies = bodies at hbodies ⊢
  generalize d.bodies = bodies' at hbodies ⊢
  induction hbodies with
  | nil => rfl
  | cons hb _ ih => rw [List.foldr_cons, List.foldr_cons, hb.size_eq, ih]

theorem countSkipped_eq (h : c.Shuffled d) (skips : SkipList) :
    skips.countSkipped d = skips.countSkipped c := by
  obtain ⟨units⟩ := c
  obtain ⟨units'⟩ := d
  change List.Forall₂ _ units units' at h
  induction h with
  | nil => rfl
  | @cons u v units units' hunit _ ih =>
    obtain ⟨key, b⟩ := u
    obtain ⟨key', b'⟩ := v
    obtain ⟨rfl, hb⟩ := hunit
    change skips.countBody key b' + skips.countSkipped ⟨units'⟩ =
      skips.countBody key b + skips.countSkipped ⟨units⟩
    rw [hb.countBody_eq, ih]

theorem apply (h : c.Shuffled d) (skips : SkipList) : (skips.apply c).Shuffled (skips.apply d) := by
  obtain ⟨units⟩ := c
  obtain ⟨units'⟩ := d
  change List.Forall₂ _ units units' at h
  rw [Shuffled, SkipList.apply, SkipList.apply]
  induction h with
  | nil => exact .nil
  | @cons u v units units' hunit _ ih =>
    obtain ⟨key, b⟩ := u
    obtain ⟨key', b'⟩ := v
    obtain ⟨rfl, hb⟩ := hunit
    have hleft := hb.applyBody skips key
    simp only [List.map_cons, List.filter_cons, hleft.isEmpty_eq]
    split
    · exact .cons ⟨rfl, hleft⟩ ih
    · exact ih

end Shuffled

end Catalog

section Shuffled

variable {fs fs' : List Fragment}

theorem gather_shuffled (hp : fs'.Perm fs) (file : ClassFile) :
    ClassBody.Shuffled (ClassBody.gather file (fs.filterMap Fragment.declared?))
      (ClassBody.gather file (fs'.filterMap Fragment.declared?)) where
  file := rfl
  enumerations := (hp.filterMap _).filterMap _
  vars := (hp.filterMap _).filterMap _

/-- The order of the fragments shows in the order inside of the bodies only. -/
theorem catalog_shuffled (hp : fs'.Perm fs) (hfs : ∀ f ∈ fs, f.OwnerRead) :
    (({} : Session).addAll fs).1.catalog.Shuffled (({} : Session).addAll fs').1.catalog := by
  have hfs' : ∀ f ∈ fs', f.OwnerRead := fun f hf => hfs f (hp.subset hf)
  apply Catalog.Sorted.shuffled (Session.Reachable.start.addAll hfs).wellFormed.sorted
    (Session.Reachable.start.addAll hfs').wellFormed.sorted
  intro file
  have hgather := gather_shuffled hp file
  rw [body?_addAll hfs, body?_addAll hfs']
  dsimp only
  rw [hgather.isEmpty_eq]
  split
  · exact .none
  · exact .some hgather

end Shuffled

namespace Conversion

variable {contents contents' : List Bytes}

theorem scanned_perm (hp : contents'.Perm contents) : (scanned contents').Perm (scanned contents) :=
  hp.flatMap_right _

theorem filed_shuffled (hp : contents'.Perm contents) (skips : SkipList) :
    (filed skips contents).1.catalog.Shuffled (filed skips contents').1.catalog :=
  (catalog_shuffled (scanned_perm hp) fun _ => ownerRead_of_mem_scanned).apply skips

theorem summary_filed (skips : SkipList) (contents : List Bytes) (written : List Text) :
    let catalog := (({} : Session).addAll (scanned contents)).1.catalog
    (filed skips contents).1.summary (filed skips contents).2 written =
      ⟨written, catalog.size, (scanned contents).length - catalog.size, 0,
        skips.countSkipped catalog,
        ((scanned contents).flatMap Fragment.unknownFlags).length⟩ := by
  have htotal := ({} : Session).total_addAll (scanned contents)
  have horphaned := ({} : Session).orphaned_addAll
    fun f (hf : f ∈ scanned contents) => scanned_owner hf
  have hconverted := Session.balanced_empty.addAll (scanned contents)
  have htokens := ({} : Session).tokens_addAll (scanned contents)
  rw [filed]
  generalize (({} : Session).addAll (scanned contents)).1 = s at *
  have hnone : s.fragments.orphaned = 0 := horphaned
  have hall : s.fragments.total = (scanned contents).length := htotal.trans (Nat.zero_add _)
  have htold : s.tokens.total = ((scanned contents).flatMap Fragment.unknownFlags).length :=
    htokens.trans (Nat.zero_add _)
  have hfailed : s.fragments.invalid + s.fragments.unsupported =
      (scanned contents).length - s.catalog.size := by
    rw [← hall, ← hconverted, FragmentTally.total, hnone]
    omega
  change Summary.mk written s.fragments.converted
    (s.fragments.invalid + s.fragments.unsupported) s.fragments.orphaned
    (skips.countSkipped s.catalog) s.tokens.total = _
  rw [hfailed, hnone, htold, hconverted]

theorem summary_filed_perm (hp : contents'.Perm contents) (skips : SkipList)
    (written : List Text) :
    (filed skips contents').1.summary (filed skips contents').2 written =
      (filed skips contents).1.summary (filed skips contents).2 written := by
  have hscanned := scanned_perm hp
  have hcatalog := catalog_shuffled hscanned fun f => ownerRead_of_mem_scanned
  have hsize := hcatalog.size_eq
  have hskipped := hcatalog.countSkipped_eq skips
  have hunknown := (hscanned.flatMap_right Fragment.unknownFlags).length_eq
  rw [summary_filed, summary_filed, hscanned.length_eq, hunknown, hsize, hskipped]

/-- What at most one member of a list adds to does not depend on the order of the list. -/
theorem flatMap_eq_of_perm {α β : Type} {f : α → List β} {l l' : List α} (hp : l.Perm l')
    (h : l.countP (fun a => !(f a).isEmpty) ≤ 1) : l.flatMap f = l'.flatMap f := by
  induction hp with
  | nil => rfl
  | cons a _ ih =>
    rw [List.countP_cons] at h
    rw [List.flatMap_cons, List.flatMap_cons, ih (by omega)]
  | swap a b l =>
    rw [List.countP_cons, List.countP_cons] at h
    have hone : f a = [] ∨ f b = [] := by
      by_contra hboth
      rw [not_or] at hboth
      rw [if_pos (by simpa using hboth.1), if_pos (by simpa using hboth.2)] at h
      omega
    rw [List.flatMap_cons, List.flatMap_cons, List.flatMap_cons, List.flatMap_cons]
    rcases hone with ha | hb
    · rw [ha, List.nil_append, List.nil_append]
    · rw [hb, List.nil_append, List.nil_append]
  | trans hp _ ih ih' => exact (ih h).trans (ih' (by rwa [← hp.countP_eq]))

/-- The enumerations that the header in some bytes adds to a class file. -/
def enumerationsIn (file : ClassFile) (bytes : Bytes) : List Enumeration :=
  enumerationsOf file (Header.fragments (Utf8.decodeLossy bytes))

def variablesIn (file : ClassFile) (bytes : Bytes) : List Variable :=
  variablesOf file (Header.fragments (Utf8.decodeLossy bytes))

theorem enumerationsOf_scanned (file : ClassFile) (contents : List Bytes) :
    enumerationsOf file (scanned contents) = contents.flatMap (enumerationsIn file) := by
  rw [enumerationsOf, scanned, List.filterMap_flatMap, List.filter_flatMap]
  rfl

theorem variablesOf_scanned (file : ClassFile) (contents : List Bytes) :
    variablesOf file (scanned contents) = contents.flatMap (variablesIn file) := by
  rw [variablesOf, scanned, List.filter_flatMap, List.filterMap_flatMap, List.map_flatMap]
  rfl

/-- A class file to which at most one header adds enumerations, and at most one adds variables, is
the same in every order of the headers. -/
theorem body?_filed (hp : contents'.Perm contents) (skips : SkipList) {file : ClassFile}
    (he : contents.countP (fun bytes => !(enumerationsIn file bytes).isEmpty) ≤ 1)
    (hv : contents.countP (fun bytes => !(variablesIn file bytes).isEmpty) ≤ 1) :
    (filed skips contents').1.catalog.body? file = (filed skips contents).1.catalog.body? file := by
  have hread : ∀ f ∈ scanned contents, f.OwnerRead := fun f => ownerRead_of_mem_scanned
  have hread' : ∀ f ∈ scanned contents', f.OwnerRead := fun f => ownerRead_of_mem_scanned
  have hall : (({} : Session).addAll (scanned contents')).1.catalog.body? file =
      (({} : Session).addAll (scanned contents)).1.catalog.body? file := by
    rw [body?_addAll hread, body?_addAll hread', gather_declared, gather_declared,
      enumerationsOf_scanned, enumerationsOf_scanned, variablesOf_scanned, variablesOf_scanned,
      flatMap_eq_of_perm hp.symm he, flatMap_eq_of_perm hp.symm hv]
  change (skips.apply _).body? file = (skips.apply _).body? file
  rw [(Session.Reachable.start.addAll hread').wellFormed.body?_apply,
    (Session.Reachable.start.addAll hread).wellFormed.body?_apply, hall]

end Conversion

namespace Workspace

variable {w v : Workspace}

theorem Alike.writeBody (h : w.Alike v) (path : Text) (b d : ClassBody) :
    let wrote := (Conversion.writeBody (m := StateM Workspace) path b).run w
    let wrote' := (Conversion.writeBody (m := StateM Workspace) path d).run v
    wrote'.1 = wrote.1 ∧ wrote.2.Alike wrote'.2 := by
  obtain ⟨hresult, hbelow⟩ := h.makeDirs ((Path.parent? path).getD [])
  rw [Conversion.writeBody, Conversion.writeBody, run_bind, run_bind, run_makeDirs, run_makeDirs]
  generalize w.makeDirs ((Path.parent? path).getD []) = made at *
  generalize v.makeDirs ((Path.parent? path).getD []) = made' at *
  obtain ⟨result, below⟩ := made
  obtain ⟨result', below'⟩ := made'
  obtain rfl : result' = result := hresult
  cases result' with
  | error e => exact ⟨rfl, hbelow⟩
  | ok done =>
    have hwrote := hbelow.write path (Utf8.encode b.render) (Utf8.encode d.render)
    dsimp only at hwrote ⊢
    rw [run_bind, run_bind, run_write, run_write]
    generalize below.write path (Utf8.encode b.render) = written at *
    generalize below'.write path (Utf8.encode d.render) = written' at *
    cases hwrote with
    | error e => exact ⟨rfl, hbelow⟩
    | ok alike => exact ⟨rfl, alike⟩

theorem Alike.writeBodies (h : w.Alike v) (out : Text) {bodies bodies' : List ClassBody}
    (hb : List.Forall₂ ClassBody.Shuffled bodies bodies') :
    (v.writeBodies out bodies').1.result = (w.writeBodies out bodies).1.result := by
  induction hb generalizing w v with
  | nil => rfl
  | @cons b d bodies bodies' hb _ ih =>
    obtain ⟨hresult, halike⟩ := h.writeBody (b.file.path out) b d
    have hrest := ih halike
    rw [Workspace.writeBodies, Workspace.writeBodies] at hrest ⊢
    have hother := writeBodies_cons v out d bodies'
    rw [hb.file] at hother
    rcases writeBodies_cons w out b bodies with ⟨e, hw, hr, -⟩ | ⟨hw, hr, -⟩
    · rcases hother with ⟨e', hv, hr', -⟩ | ⟨hv, -⟩
      · cases (hv.symm.trans hresult).trans hw
        exact hr'.trans hr.symm
      · cases (hv.symm.trans hresult).trans hw
    · rcases hother with ⟨e', hv, -⟩ | ⟨-, hr', -⟩
      · cases (hv.symm.trans hresult).trans hw
      · rw [hr, hr', hrest]

theorem contents_eq_ok_iff {dir : Text} {inputs : List Text} {contents : List Bytes} :
    w.contents dir inputs = .ok contents ↔
      List.Forall₂ (fun input bytes => w.read (Path.join dir input) = .ok bytes) inputs
        contents := by
  induction inputs generalizing contents with
  | nil =>
    rw [Workspace.contents, List.forall₂_nil_left_iff]
    constructor
    · intro h
      cases h
      rfl
    · rintro rfl
      rfl
  | cons input inputs ih =>
    rw [Workspace.contents, List.forall₂_cons_left_iff]
    cases hr : w.read (Path.join dir input) with
    | error e => simp
    | ok bytes =>
      simp only [← ih]
      cases hc : w.contents dir inputs with
      | error e => simp [Except.map]
      | ok others => simp [Except.map, eq_comm]

theorem contents_congr {dir : Text} {inputs : List Text}
    (h : ∀ input ∈ inputs, v.read (Path.join dir input) = w.read (Path.join dir input)) :
    v.contents dir inputs = w.contents dir inputs := by
  induction inputs with
  | nil => rfl
  | cons input inputs ih =>
    rw [Workspace.contents, Workspace.contents, h input (.head _),
      ih fun other ho => h other (.tail _ ho)]

theorem exists_contents_of_perm {dir : Text} {inputs inputs' : List Text} {contents : List Bytes}
    (hp : inputs'.Perm inputs) (h : w.contents dir inputs = .ok contents) :
    ∃ contents', w.contents dir inputs' = .ok contents' ∧ contents'.Perm contents := by
  obtain ⟨contents', hread, hperm⟩ := List.perm_comp_forall₂ hp (contents_eq_ok_iff.1 h)
  exact ⟨contents', contents_eq_ok_iff.2 hread, hperm⟩

end Workspace

/-- A second conversion differs from a first in the order of its headers only: directories and files
stand at the same places, and the configurations name the same output directory, skip list and
headers, which have the same content. -/
structure Reordered [ConfigFormat] (w v : Workspace) (path path' : Text)
    (config config' : Config) : Prop where
  alike : w.Alike v
  directory : directoryOf path' = directoryOf path
  first : w.config path = .ok config
  second : v.config path' = .ok config'
  output : config'.output = config.output
  skip : config'.skip = config.skip
  inputs : config'.inputs.Perm config.inputs
  headers : ∀ input ∈ config.inputs, v.read (Path.join (directoryOf path) input) =
    w.read (Path.join (directoryOf path) input)

/-- A conversion that succeeds does so with its headers in another order, with the same summary;
class files that at most one header adds to, in either list, have the same content. -/
theorem convert_reordered [ConfigFormat] {w v : Workspace} {path path' : Text}
    {config config' : Config} (h : Reordered w v path path' config config') {summary : Summary}
    (hrun : (w.convert path).1.result = .ok summary) :
    (v.convert path').1.result = .ok summary ∧
      ∃ contents contents', w.contents (directoryOf path) config.inputs = .ok contents ∧
        v.contents (directoryOf path') config'.inputs = .ok contents' ∧
        ∀ file,
          contents.countP (fun bytes => !(enumerationsIn file bytes).isEmpty) ≤ 1 →
          contents.countP (fun bytes => !(variablesIn file bytes).isEmpty) ≤ 1 →
          (filed config'.skip contents').1.catalog.body? file =
            (filed config.skip contents).1.catalog.body? file := by
  obtain ⟨_, contents, hfirst, hcontents, hwrote, -, hsummary⟩ := Workspace.convert_ok hrun
  cases h.first.symm.trans hfirst
  obtain ⟨contents', hread, hperm⟩ := Workspace.exists_contents_of_perm h.inputs hcontents
  have hcontents' : v.contents (directoryOf path') config'.inputs = .ok contents' := by
    rw [h.directory, Workspace.contents_congr fun input hi => h.headers input (h.inputs.subset hi)]
    exact hread
  refine ⟨?_, contents, contents', hcontents, hcontents', fun file he hv => ?_⟩
  · rcases run_cases Workspace.lawful v path' with
      ⟨e, hsecond, -⟩ | ⟨_, hsecond, ⟨e, hin, -⟩ | ⟨_, hin, hr, -⟩⟩
    · cases h.second.symm.trans hsecond
    · cases h.second.symm.trans hsecond
      cases hcontents'.symm.trans hin
    · cases h.second.symm.trans hsecond
      cases hcontents'.symm.trans hin
      have hout : outputOf path' config' = outputOf path config := by
        rw [outputOf, outputOf, h.directory, h.output]
      rw [hout, h.skip] at hr
      have hbodies := h.alike.writeBodies (outputOf path config)
        (filed_shuffled hperm config.skip).bodies
      refine hr.trans ?_
      change (v.writeBodies _ _).1.result.map _ = _
      rw [hbodies.trans hwrote, Except.map, summary_filed_perm hperm]
      exact congrArg Except.ok hsummary.symm
  · rw [h.skip]
    exact body?_filed hperm config.skip he hv

def sharedHeader : Text :=
  Text.unlines ["// Class Engine.Pawn", "int   Health;   // 0x0", "// Class Engine.Actor",
    "float   Speed;   // 0x0"]

def secondHeader : Text :=
  Text.unlines ["// Class Engine.Actor", "int   Flags;   // 0x0"]

def bothOrders : Workspace :=
  let empty : Workspace := {}
  (((empty.install "c.toml"
    (Utf8.encode "[convert]\ninput = [\"a.h\", \"b.h\"]\noutput = \"out\"\n")).install
    "d.toml" (Utf8.encode "[convert]\ninput = [\"b.h\", \"a.h\"]\noutput = \"out\"\n")).install
    "a.h" (Utf8.encode sharedHeader)).install "b.h" (Utf8.encode secondHeader)

theorem convert_reordered_both :
    (bothOrders.convert "d.toml").1.result =
      .ok ⟨["./out/Engine/Classes/Actor.uc", "./out/Engine/Classes/Pawn.uc"], 3, 0, 0, 0, 0⟩ ∧
    ∃ contents contents', bothOrders.contents "." ["a.h", "b.h"] = .ok contents ∧
      bothOrders.contents "." ["b.h", "a.h"] = .ok contents' ∧
      (filed {} contents').1.catalog.body? ⟨"Engine", "Pawn"⟩ =
        (filed {} contents).1.catalog.body? ⟨"Engine", "Pawn"⟩ := by
  have hdirectory : directoryOf "c.toml" = "." := by decide +kernel
  have hreordered : Reordered bothOrders bothOrders "c.toml" "d.toml" ⟨["a.h", "b.h"], "out", {}⟩
      ⟨["b.h", "a.h"], "out", {}⟩ := {
    alike := .refl _
    directory := by decide +kernel
    first := by decide +kernel
    second := by decide +kernel
    output := rfl
    skip := rfl
    inputs := .swap _ _ _
    headers := fun _ _ => rfl }
  have hresult : (bothOrders.convert "c.toml").1.result =
      .ok ⟨["./out/Engine/Classes/Actor.uc", "./out/Engine/Classes/Pawn.uc"], 3, 0, 0, 0, 0⟩ := by
    decide +kernel
  have hread : bothOrders.contents "." ["a.h", "b.h"] =
      .ok [Utf8.encode sharedHeader, Utf8.encode secondHeader] := by
    decide +kernel
  obtain ⟨hother, contents, contents', hcontents, hcontents', hbody⟩ :=
    convert_reordered hreordered hresult
  rw [hreordered.directory, hdirectory] at hcontents'
  rw [hdirectory] at hcontents
  refine ⟨hother, contents, contents', hcontents, hcontents', hbody _ ?_ ?_⟩
  · cases hcontents.symm.trans hread
    decide +kernel
  · cases hcontents.symm.trans hread
    decide +kernel

end UnrealDecl
