import UnrealDecl.Proofs.Conversion.Execution
import UnrealDecl.Proofs.Conversion.Grouping
import UnrealDecl.Proofs.File.Path

namespace UnrealDecl

/-- A workspace, and the paths at which something was to be made or written in it, in order. -/
structure Observed where
  workspace : Workspace
  asked : List Text := []

namespace Observed

def ask {α : Type} (path : Text) (x : StateM Workspace α) : StateM Observed α :=
  modifyGet fun o => ((x.run o.workspace).1, ⟨(x.run o.workspace).2, o.asked ++ [path]⟩)

instance : FileSystem (StateM Observed) where
  read path := do return (← get).workspace.read path
  makeDirs path := ask path (FileSystem.makeDirs path)
  write path content := ask path (FileSystem.write path content)

open Conversion

theorem run_writeBody (o : Observed) (path : Text) (b : ClassBody) :
    ∃ asked, (writeBody (m := StateM Observed) path b).run o =
        (((writeBody (m := StateM Workspace) path b).run o.workspace).1,
          ⟨((writeBody (m := StateM Workspace) path b).run o.workspace).2, o.asked ++ asked⟩) ∧
      asked ⊆ [(Path.parent? path).getD [], path] := by
  rw [writeBody, writeBody, run_bind, run_bind]
  generalize hparent : (Path.parent? path).getD [] = parent
  have hdirs : (FileSystem.makeDirs (m := StateM Observed) parent).run o =
      (((FileSystem.makeDirs (m := StateM Workspace) parent).run o.workspace).1,
        ⟨((FileSystem.makeDirs (m := StateM Workspace) parent).run o.workspace).2,
          o.asked ++ [parent]⟩) := rfl
  rw [hdirs]
  generalize (FileSystem.makeDirs (m := StateM Workspace) parent).run o.workspace = made
  obtain ⟨result, below⟩ := made
  cases result with
  | error e => exact ⟨[parent], rfl, by simp⟩
  | ok done =>
    refine ⟨[parent, path], ?_, by simp⟩
    dsimp only
    rw [run_bind, run_bind]
    have hwrite : (FileSystem.write (m := StateM Observed) path (Utf8.encode b.render)).run
        ⟨below, o.asked ++ [parent]⟩ =
        (((FileSystem.write (m := StateM Workspace) path (Utf8.encode b.render)).run below).1,
          ⟨((FileSystem.write (m := StateM Workspace) path (Utf8.encode b.render)).run below).2,
            o.asked ++ [parent] ++ [path]⟩) := rfl
    rw [hwrite, List.append_assoc]
    generalize (FileSystem.write (m := StateM Workspace) path (Utf8.encode b.render)).run below =
      written
    obtain ⟨result, after⟩ := written
    cases result <;> rfl

/-- Observing changes nothing, and what is asked for belongs to one of the bodies. -/
theorem run_writeBodies (o : Observed) (out : Text) (bodies : List ClassBody) :
    ∃ asked, (writeBodies (m := StateM Observed) out bodies).run o =
        ((o.workspace.writeBodies out bodies).1,
          ⟨(o.workspace.writeBodies out bodies).2, o.asked ++ asked⟩) ∧
      ∀ path ∈ asked, ∃ b ∈ bodies, path ∈
        [(Path.parent? (b.file.path out)).getD [], b.file.path out] := by
  induction bodies generalizing o with
  | nil => exact ⟨[], by rw [List.append_nil]; rfl, by simp⟩
  | cons b bodies ih =>
    obtain ⟨first, hfirst, hasked⟩ := run_writeBody o (b.file.path out) b
    rw [writeBodies, run_bind, hfirst, Workspace.writeBodies, writeBodies, run_bind]
    generalize (writeBody (m := StateM Workspace) (b.file.path out) b).run o.workspace = wrote
    obtain ⟨result, next⟩ := wrote
    cases result with
    | error e => exact ⟨first, rfl, fun path hp => ⟨b, .head _, hasked hp⟩⟩
    | ok done =>
      obtain ⟨later, hlater, hrest⟩ := ih ⟨next, o.asked ++ first⟩
      refine ⟨first ++ later, ?_, fun path hp => ?_⟩
      · dsimp only
        rw [run_bind, hlater, List.append_assoc]
        rfl
      · rcases List.mem_append.1 hp with hp | hp
        · exact ⟨b, .head _, hasked hp⟩
        · obtain ⟨d, hd, hpath⟩ := hrest path hp
          exact ⟨d, .tail _ hd, hpath⟩

end Observed

/-- The paths at which writing some bodies makes or writes something. -/
def Workspace.asked (w : Workspace) (out : Text) (bodies : List ClassBody) : List Text :=
  ((Conversion.writeBodies (m := StateM Observed) out bodies).run ⟨w, []⟩).2.asked

theorem Workspace.exists_of_mem_asked {w : Workspace} {out path : Text} {bodies : List ClassBody}
    (h : path ∈ w.asked out bodies) :
    ∃ b ∈ bodies, path ∈ [(Path.parent? (b.file.path out)).getD [], b.file.path out] := by
  obtain ⟨asked, hrun, hasked⟩ := Observed.run_writeBodies ⟨w, []⟩ out bodies
  apply hasked
  rw [Workspace.asked, hrun] at h
  exact h

namespace ClassFile

/-- Neither part of the name of a class file begins at the root. -/
structure IsRelative (file : ClassFile) : Prop where
  package : Path.isAbsolute file.package = false
  name : Path.isAbsolute file.name = false

variable {file : ClassFile}

theorem isAbsolute_fileName (name : Text) :
    Path.isAbsolute (name ++ ".uc") = Path.isAbsolute name := by
  cases name <;> rfl

theorem not_upwards {text : Text} (h : text.count '.' ≤ 1) : (".." : Text) ∉ Path.pieces text := by
  intro hm
  have hcount := (Text.sublist_of_mem_splitWhere hm).count_le '.'
  have htwo : (".." : Text).count '.' = 2 := by decide
  omega

/-- The path of a class file with a relative name goes down from the output directory, as does the
path above it. -/
theorem inside_path (hn : file.Named) (h : file.IsRelative) (out : Text) :
    Path.Inside out (file.path out) ∧
      Path.Inside out ((Path.parent? (file.path out)).getD []) := by
  have hname : Path.isAbsolute (file.name ++ ".uc") = false :=
    (isAbsolute_fileName file.name).trans h.name
  have hmiddle : Path.isAbsolute "Classes" = false := by decide
  obtain ⟨first, hfirst, hfirst', -⟩ := Path.exists_components_join h.package out
  obtain ⟨second, hsecond, hsecond', hclasses⟩ :=
    Path.exists_components_join hmiddle (Path.join out file.package)
  obtain ⟨third, hthird, hthird', -⟩ := Path.exists_components_join hname
    (Path.join (Path.join out file.package) "Classes")
  have hpath : Path.components (file.path out) =
      Path.components out ++ (first ++ second ++ third) := by
    rw [path, hthird, hsecond, hfirst]
    simp
  have hmem : ("Classes" : Text) ∈ second := hclasses _ (by decide) (by decide) (by decide)
  have hup : (".." : Text) ∉ first ++ second ++ third := by
    rw [List.mem_append, List.mem_append, not_or, not_or]
    refine ⟨⟨fun hm => not_upwards ?_ (hfirst' hm),
      fun hm => not_upwards (by decide) (hsecond' hm)⟩, fun hm => not_upwards ?_ (hthird' hm)⟩
    · rw [List.count_eq_zero.2 hn.package.2]
      omega
    · have hend : (".uc" : Text).count '.' = 1 := by decide
      rw [List.count_append, List.count_eq_zero.2 hn.name.2, hend]
  refine ⟨⟨_, hpath, hup⟩, ?_⟩
  have hdown : ("Classes" : Text) ∈ first ++ second ++ third :=
    List.mem_append_left _ (List.mem_append_right _ hmem)
  have hne : first ++ second ++ third ≠ [] := List.ne_nil_of_mem hdown
  have hcomponent : ("Classes" : Text) ∈ Path.components (file.path out) :=
    hpath ▸ List.mem_append_right _ hdown
  obtain ⟨parent, hparent, hcomponents⟩ := Path.components_parent? hcomponent (by decide)
  rw [hparent, Option.getD_some]
  refine ⟨(first ++ second ++ third).dropLast, ?_, fun hm => hup (List.mem_of_mem_dropLast hm)⟩
  rw [hcomponents, hpath, List.dropLast_append_of_ne_nil hne]

theorem path_of_not_isRelative (h : ¬ file.IsRelative) (out : Text) :
    Path.isAbsolute (file.path out) = true ∧ ∀ other, file.path other = file.path out := by
  cases hname : Path.isAbsolute file.name with
  | true =>
    have hfile : Path.isAbsolute (file.name ++ ".uc") = true :=
      (isAbsolute_fileName file.name).trans hname
    have hpath : ∀ other, file.path other = file.name ++ ".uc" :=
      fun other => Path.join_of_isAbsolute hfile _
    exact ⟨by rw [hpath]; exact hfile, fun other => by rw [hpath, hpath]⟩
  | false =>
    have hpackage : Path.isAbsolute file.package = true := by
      cases hp : Path.isAbsolute file.package with
      | true => rfl
      | false => exact absurd ⟨hp, hname⟩ h
    have hfile : Path.isAbsolute (file.name ++ ".uc") = false :=
      (isAbsolute_fileName file.name).trans hname
    have hjoin : ∀ other, Path.join other file.package = file.package :=
      fun other => Path.join_of_isAbsolute hpackage other
    refine ⟨?_, fun other => by rw [path, path, hjoin, hjoin]⟩
    rw [path, Path.isAbsolute_join hfile, Path.isAbsolute_join (by decide), hjoin]
    exact hpackage

end ClassFile

namespace Path

theorem root_not_mem_components {path : Text} (h : isAbsolute path = false) :
    ("/" : Text) ∉ components path := by
  intro hm
  obtain ⟨rest, hrest, hsubset, -⟩ := exists_solid_append (pieces path).reverse []
  rw [components, rootOf, h, ← List.append_nil (pieces path).reverse, hrest] at hm
  exact slash_not_mem (List.mem_reverse.1 (hsubset hm)) (.head _)

theorem not_inside_of_isAbsolute {dir path : Text} (hd : isAbsolute dir = false)
    (hne : components dir ≠ []) (hp : isAbsolute path = true) : ¬ Inside dir path := by
  rintro ⟨rest, hrest, -⟩
  obtain ⟨first, others, hdir⟩ := List.exists_cons_of_ne_nil hne
  rw [hdir, components, rootOf, hp] at hrest
  have hroot := root_not_mem_components hd
  rw [hdir] at hroot
  exact hroot ((List.cons.inj hrest).1 ▸ .head _)

theorem Inside.parent {dir path q : Text} (h : Inside dir path) (hq : q ∈ parents path) :
    Inside dir q ∨ components q <+: components dir := by
  obtain ⟨rest, hrest, hup⟩ := h
  have hbegins := components_prefix_of_mem_parents hq
  rw [hrest] at hbegins
  rcases List.prefix_or_prefix_of_prefix hbegins (List.prefix_append _ _) with hdir | hdir
  · exact .inr hdir
  · obtain ⟨down, hdown⟩ := hdir
    rw [← hdown, List.prefix_append_right_inj] at hbegins
    exact .inl ⟨down, hdown.symm, fun hm => hup (hbegins.subset hm)⟩

end Path

theorem reachable_headers (headers : List Text) (skips : SkipList) :
    ((({} : Session).addAll (headers.flatMap Header.fragments)).1.skip skips).1.Reachable := by
  refine .skip skips (Session.Reachable.start.addAll fun f hf => ?_)
  obtain ⟨source, -, hf⟩ := List.mem_flatMap.1 hf
  exact Header.ownerRead_of_mem hf

/-- What is made or written for a class file with a relative name stands inside the output
directory, or is a directory on the way to it; a name that begins at the root replaces the output
directory. -/
theorem written_inside (headers : List Text) (skips : SkipList) (out : Text) :
    let bodies :=
      ((({} : Session).addAll (headers.flatMap Header.fragments)).1.skip skips).1.catalog.bodies
    (∀ (w : Workspace) (path : Text), path ∈ w.asked out bodies →
      ∃ b ∈ bodies, path ∈ [(Path.parent? (b.file.path out)).getD [], b.file.path out] ∧
        (b.file.IsRelative → Path.Inside out path ∧
          ∀ q ∈ Path.parents path,
            Path.Inside out q ∨ Path.components q <+: Path.components out)) ∧
    ∀ b ∈ bodies, ¬ b.file.IsRelative →
      Path.isAbsolute (b.file.path out) = true ∧ (∀ other, b.file.path other = b.file.path out) ∧
        (Path.isAbsolute out = false → Path.components out ≠ [] →
          ¬ Path.Inside out (b.file.path out)) := by
  intro bodies
  refine ⟨fun w path hpath => ?_, fun b hb hr => ?_⟩
  · obtain ⟨b, hb, hmem⟩ := Workspace.exists_of_mem_asked hpath
    have hnamed := ((reachable_headers headers skips).wellFormed.bodies b hb).named
    refine ⟨b, hb, hmem, fun hr => ?_⟩
    obtain ⟨hfile, hdir⟩ := ClassFile.inside_path hnamed hr out
    have hinside : Path.Inside out path := by
      rcases List.mem_cons.1 hmem with rfl | hmem
      · exact hdir
      · exact List.mem_singleton.1 hmem ▸ hfile
    exact ⟨hinside, fun q hq => hinside.parent hq⟩
  · obtain ⟨habsolute, hother⟩ := ClassFile.path_of_not_isRelative hr out
    exact ⟨habsolute, hother, fun hout hne => Path.not_inside_of_isAbsolute hout hne habsolute⟩

def speedHeader (dotted : Text) : Text :=
  "// Class " ++ dotted ++ "\n\tfloat   Speed;   // 0x0 (0x4)\n"

def speedBodies (dotted : Text) : List ClassBody :=
  ((({} : Session).addAll ([speedHeader dotted].flatMap Header.fragments)).1.skip
    {}).1.catalog.bodies

theorem written_inside_speed :
    (∀ b ∈ speedBodies "Engine.Actor", b.file.IsRelative) ∧
    Workspace.asked {} "out" (speedBodies "Engine.Actor") =
      ["out/Engine/Classes", "out/Engine/Classes/Actor.uc"] ∧
    Path.Inside "out" "out/Engine/Classes" ∧ Path.Inside "out" "out/Engine/Classes/Actor.uc" := by
  have hbodies : speedBodies "Engine.Actor" =
      [⟨⟨"Engine", "Actor"⟩, [], [⟨some ⟨"Engine", "Actor"⟩, "Speed", "float", .empty⟩]⟩] := by
    decide +kernel
  have hrelative : ∀ b ∈ speedBodies "Engine.Actor", b.file.IsRelative := by
    rw [hbodies]
    intro b hb
    obtain rfl := List.mem_singleton.1 hb
    exact ⟨by decide, by decide⟩
  have hasked : Workspace.asked {} "out" (speedBodies "Engine.Actor") =
      ["out/Engine/Classes", "out/Engine/Classes/Actor.uc"] := by
    decide +kernel
  have hinside : ∀ path ∈ Workspace.asked {} "out" (speedBodies "Engine.Actor"),
      Path.Inside "out" path := by
    intro path hpath
    obtain ⟨b, hb, -, h⟩ := (written_inside [speedHeader "Engine.Actor"] {} "out").1 {} path hpath
    exact (h (hrelative b hb)).1
  rw [hasked] at hinside
  exact ⟨hrelative, hasked, hinside _ (.head _), hinside _ (.tail _ (.head _))⟩

/-- A class file whose package begins at the root is written outside the output directory. -/
theorem written_outside :
    Workspace.asked {} "out" (speedBodies "/abs.Actor") =
      ["/abs/Classes", "/abs/Classes/Actor.uc"] ∧
    ((({} : Workspace).writeBodies "out" (speedBodies "/abs.Actor")).2.read
        "/abs/Classes/Actor.uc").toOption = some (Utf8.encode "var float Speed;\n") ∧
    ∀ path ∈ Workspace.asked {} "out" (speedBodies "/abs.Actor"), ¬ Path.Inside "out" path := by
  have hasked : Workspace.asked {} "out" (speedBodies "/abs.Actor") =
      ["/abs/Classes", "/abs/Classes/Actor.uc"] := by
    decide +kernel
  refine ⟨hasked, by decide +kernel, fun path hpath => ?_⟩
  rw [hasked] at hpath
  refine Path.not_inside_of_isAbsolute (by decide) (by decide) ?_
  rcases List.mem_cons.1 hpath with rfl | hpath
  · decide
  · obtain rfl := List.mem_singleton.1 hpath
    decide

end UnrealDecl
