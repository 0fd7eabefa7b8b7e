import UnrealDecl.Proofs.Conversion.Grouping
import UnrealDecl.Proofs.Header.ReadBack
import UnrealDecl.Proofs.Header.Specification

namespace UnrealDecl.Header

/-- In section `sec`, some lines are cut into fragments that make the declarations `ds`, and leave
section `next`. -/
def Declares (sec : Section) (ls : List Text) (next : Section) (ds : List Declaration) : Prop :=
  ∀ number rest, ∃ fs, fragmentsFrom sec number (ls ++ rest) =
      fs ++ fragmentsFrom next (number + ls.length) rest ∧
    fs.map Fragment.declared? = ds.map some

namespace Declares

variable {sec mid next : Section} {line : Text} {ls ls' : List Text} {ds ds' : List Declaration}

theorem nil (sec : Section) : Declares sec [] sec [] :=
  fun _ _ => ⟨[], rfl, rfl⟩

theorem append (h : Declares sec ls mid ds) (h' : Declares mid ls' next ds') :
    Declares sec (ls ++ ls') next (ds ++ ds') := by
  intro number rest
  obtain ⟨fs, hfs, hds⟩ := h number (ls' ++ rest)
  obtain ⟨fs', hfs', hds'⟩ := h' (number + ls.length) rest
  refine ⟨fs ++ fs', ?_, ?_⟩
  · rw [List.append_assoc, hfs, hfs', List.append_assoc, List.length_append, Nat.add_assoc]
  · rw [List.map_append, hds, hds', List.map_append]

theorem cons (h : Declares sec [line] mid ds) (h' : Declares mid ls' next ds') :
    Declares sec (line :: ls') next (ds ++ ds') :=
  h.append h'

theorem marker (h : Begins line next) : Declares sec [line] next [] := by
  intro number rest
  exact ⟨[], fragmentsFrom_marker h number rest, rfl⟩

theorem unmarked (h : ∀ word ∈ markers, ¬ word <+: Text.trim line)
    (hd : ∀ number, (memberFragment sec number line).map Fragment.declared? = ds.map some) :
    Declares sec [line] sec ds := by
  intro number rest
  have hm : ∀ next, ¬ Begins line next := by
    intro next hb
    cases hb with
    | ofClass marker name => exact h _ (.head _) ⟨_, marker.symm⟩
    | malformed marker name => exact h _ (.head _) ⟨_, marker.symm⟩
    | ignored known marker => exact h _ (mem_markers_of_ignored known) marker
  exact ⟨memberFragment sec number line,
    fragmentsFrom_plain hm (h _ (.tail _ (.head _))) sec number rest, hd number⟩

theorem skipped (h : ∀ word ∈ markers, ¬ word <+: Text.trim line) (hm : isMember line = false) :
    Declares sec [line] sec [] := by
  apply unmarked h
  intro number
  cases sec <;> simp [memberFragment, hm]

theorem ignored (h : ∀ word ∈ markers, ¬ word <+: Text.trim line) :
    Declares .ignored [line] .ignored [] :=
  unmarked h fun _ => rfl

theorem member {owner : ClassFile} {v : Variable} (h : ∀ word ∈ markers, ¬ word <+: Text.trim line)
    (hm : isMember line = true) (hv : (Variable.parse line).result = .ok v) :
    Declares (.ofClass owner) [line] (.ofClass owner) [.member (v.inClass owner)] := by
  apply unmarked h
  intro number
  simp [memberFragment, hm, Fragment.declared?, Fragment.read, Reading.map, hv, Except.map]

theorem enumeration {last : Text} {e : Enumeration} (h : enumMarker <+: Text.trim line)
    (hopen : ∀ l ∈ line :: ls, '\x7d' ∉ l) (hlast : '\x7d' ∈ last)
    (he : Enumeration.parse (Text.unlines (line :: (ls ++ [last]))) = .ok e) :
    Declares sec (line :: (ls ++ [last])) sec [.enumeration e] := by
  intro number rest
  have hblock : ∀ ls' : List Text, (∀ l ∈ ls', '\x7d' ∉ l) →
      block (ls' ++ last :: rest) = ls' ++ [last] := by
    intro ls' h'
    induction ls' with
    | nil => rw [List.nil_append, block_cons, if_pos hlast, List.nil_append]
    | cons l ls' ih =>
      rw [List.cons_append, block_cons, if_neg (h' l (.head _)), ih fun l hl => h' l (.tail _ hl),
        List.cons_append]
  have hlines : line :: (ls ++ [last]) ++ rest = line :: (ls ++ last :: rest) := by simp
  have hfirst := fragmentsFrom_opener h sec number (ls ++ last :: rest)
  rw [← List.cons_append, hblock _ hopen] at hfirst
  refine ⟨[⟨.enumeration, none, Text.unlines (line :: (ls ++ [last])), number⟩], ?_, ?_⟩
  · rw [hlines, ← List.cons_append, hfirst]
    simp
  · simp only [List.map_cons, List.map_nil, Fragment.declared?, Fragment.read, he, Except.map]

end Declares

theorem not_marker_nil : ∀ word ∈ markers, ¬ word <+: Text.trim [] := by
  decide

theorem isMember_of_not_mem {line : Text} (h : '/' ∉ line) : isMember line = false := by
  have hcut : Text.cut "//" line = none := by
    apply Text.cut_eq_none_iff.2
    intro hi
    exact h (hi.subset (.head _))
  rw [isMember, hcut]

theorem EnumSection.declares (s : EnumSection) (sec : Section) :
    Declares sec s.lines sec [s.declaration] := by
  have htitle : enumMarker <+: Text.trim s.title := by
    have hne : s.qualifier.display ≠ [] := by simp [Qualifier.display]
    rw [title, trim_title (.tail _ (.head _)) hne s.solid_display]
    exact List.prefix_append _ _
  have hopen : ∀ line ∈ s.title :: ("/*enum " ++ s.name.text) :: "\x7b" ::
      s.members.map memberLine, '\x7d' ∉ line := by
    intro line hl hm
    simp only [List.mem_cons, List.mem_map] at hl
    rcases hl with rfl | rfl | rfl | ⟨member, -, rfl⟩
    · exact absurd (s.title_subset hm) (by decide)
    · exact absurd (s.name_subset hm) (by decide)
    · exact absurd hm (by decide)
    · exact absurd (memberLine_subset member hm) (by decide)
  have hblock : Declares sec s.block sec [s.declaration] :=
    .enumeration htitle hopen (by decide) s.parse_block
  have hblank : Declares sec [[]] sec [] := .skipped not_marker_nil rfl
  rw [lines_eq_block]
  exact hblock.append hblank

namespace MemberSection

variable (s : MemberSection)

def begun : Section :=
  match s.marker with
  | .ofClass => .ofClass s.owner
  | .scriptStruct | .function => .ignored

theorem solid_display : ∀ c ∈ s.owner.display, isBlank c = false := by
  intro c hc
  rcases List.mem_append.1 hc with hc | hc
  · rcases List.mem_append.1 hc with hc | hc
    · exact s.package.solid c hc
    · obtain rfl := List.mem_singleton.1 hc
      decide
  · exact s.classFile.solid c hc

theorem begins_title : Begins s.title s.begun := by
  have hne : s.owner.display ≠ [] := by simp [ClassFile.display]
  have hsolid := s.solid_display
  have htrim : ∀ word ∈ markers, Text.trim (word ++ s.owner.display) = word ++ s.owner.display :=
    fun word hw => trim_title hw hne hsolid
  have hstarts : ∀ word ∈ markers, word <+: Text.trim (word ++ s.owner.display) := by
    intro word hw
    rw [htrim word hw]
    exact List.prefix_append word _
  unfold begun title
  cases s.marker with
  | ofClass =>
    refine .ofClass (htrim _ (.head _)) ?_
    rw [Text.trim_eq_self fun c hc => hsolid c (List.mem_of_mem_head? hc)]
    · exact ClassFile.parse?_display ⟨s.package.isPart, s.classFile.isPart⟩
    · exact fun c hc => hsolid c (List.mem_of_getLast? hc)
  | scriptStruct => exact .ignored (.head _) (hstarts _ (mem_markers_of_ignored (.head _)))
  | function =>
    exact .ignored (.tail _ (.head _)) (hstarts _ (mem_markers_of_ignored (.tail _ (.head _))))

theorem declares_plain {c : Char} {text : Text} (hc : isBlank c = false) (h : '/' ∉ c :: text)
    (sec : Section) : Declares sec [c :: text] sec [] := by
  refine .skipped ?_ (isMember_of_not_mem h)
  have hblank : ∀ d ∈ ([] : Text), isBlank d = true := by simp
  exact not_marker_of_head hblank hc (fun he => h (he ▸ .head _)) text

theorem slash_not_mem_name : '/' ∉ "class " ++ s.name.text := by
  rw [List.mem_append, not_or]
  exact ⟨by decide, fun h => absurd (s.name.subset h) (by decide)⟩

theorem declares_opening (sec : Section) :
    Declares sec ["// 0x003C", "class " ++ s.name.text, "\x7b", "public:"] sec [] := by
  have hsize : Declares sec [("// 0x003C" : Text)] sec [] :=
    .skipped (by decide +kernel) (by decide +kernel)
  have hname : Declares sec ["class " ++ s.name.text] sec [] :=
    declares_plain (by decide) s.slash_not_mem_name sec
  have hbrace : Declares sec [("\x7b" : Text)] sec [] :=
    declares_plain (by decide) (by decide) sec
  have hpublic : Declares sec [("public:" : Text)] sec [] :=
    declares_plain (by decide) (by decide) sec
  exact hsize.cons (hname.cons (hbrace.cons hpublic))

theorem declares_closing (sec : Section) : Declares sec [footer, []] sec [] := by
  have hfooter : Declares sec [footer] sec [] := declares_plain (by decide) (by decide) sec
  exact hfooter.cons (.skipped not_marker_nil rfl)

theorem declares_members (ms : List MemberLine) (owner : ClassFile) :
    Declares (.ofClass owner) (ms.map MemberLine.line) (.ofClass owner)
      (ms.map fun m => .member (m.var.inClass owner)) := by
  induction ms with
  | nil => exact .nil _
  | cons m ms ih => exact .cons (.member m.not_marker_line m.isMember_line m.parse_line) ih

theorem declares_ignored (ms : List MemberLine) :
    Declares .ignored (ms.map MemberLine.line) .ignored [] := by
  induction ms with
  | nil => exact .nil _
  | cons m ms ih => exact .cons (.ignored m.not_marker_line) ih

theorem declares (sec : Section) : Declares sec s.lines s.begun s.declarations := by
  have hmembers : Declares s.begun (s.members.map MemberLine.line) s.begun s.declarations := by
    rw [begun, declarations]
    cases s.marker with
    | ofClass => exact declares_members s.members s.owner
    | scriptStruct => exact declares_ignored s.members
    | function => exact declares_ignored s.members
  have hbody := (s.declares_opening s.begun).append (hmembers.append (declares_closing s.begun))
  have htitle : Declares sec [s.title] s.begun [] := .marker s.begins_title
  have hall := htitle.cons hbody
  rwa [List.nil_append, List.nil_append, List.append_nil] at hall

theorem isLine_title : IsLine s.title := by
  have hmarker : IsLine s.marker.text := by
    cases s.marker <;> exact ⟨by decide, by decide⟩
  exact hmarker.append (.of_solid s.solid_display)

theorem isLine_lines : ∀ line ∈ s.lines, IsLine line := by
  intro line h
  simp only [lines, List.mem_cons, List.mem_append, List.mem_map, List.not_mem_nil, or_false] at h
  rcases h with rfl | rfl | rfl | rfl | rfl | ⟨m, -, rfl⟩ | rfl | rfl
  · exact s.isLine_title
  · exact ⟨by decide, by decide⟩
  · exact .append ⟨by decide, by decide⟩ (.of_solid s.name.solid)
  · exact ⟨by decide, by decide⟩
  · exact ⟨by decide, by decide⟩
  · exact m.isLine_line
  · exact ⟨by decide, by decide⟩
  · exact ⟨by decide, by decide⟩

end MemberSection

namespace Printed

theorem isLine_lines (p : Printed) : ∀ line ∈ p.lines, IsLine line := by
  cases p with
  | enumeration s =>
    intro line h
    rw [lines, s.lines_eq_block] at h
    rcases List.mem_append.1 h with h | h
    · exact s.isLine_block line h
    · obtain rfl := List.mem_singleton.1 h
      exact ⟨by decide, by decide⟩
  | members s => exact s.isLine_lines

theorem declares (p : Printed) (sec : Section) :
    ∃ next, Declares sec p.lines next p.declarations := by
  cases p with
  | enumeration s => exact ⟨sec, s.declares sec⟩
  | members s => exact ⟨s.begun, s.declares sec⟩

end Printed

/-- Sections follow each other, whatever the one before has left. -/
theorem declares_flatMap (ss : List Printed) (sec : Section) :
    ∃ next, Declares sec (ss.flatMap Printed.lines) next (ss.flatMap Printed.declarations) := by
  induction ss generalizing sec with
  | nil => exact ⟨sec, .nil sec⟩
  | cons p ss ih =>
    obtain ⟨mid, hp⟩ := p.declares sec
    obtain ⟨next, hss⟩ := ih mid
    exact ⟨next, hp.append hss⟩

theorem filterMap_declared? {fs : List Fragment} {ds : List Declaration}
    (h : fs.map Fragment.declared? = ds.map some) : fs.filterMap Fragment.declared? = ds := by
  have hsome := congrArg (List.filterMap id) h
  rwa [List.filterMap_map, List.filterMap_map, Function.id_comp, Function.id_comp,
    List.filterMap_some] at hsome

theorem Declares.map_declared? {ls : List Text} {next : Section} {ds : List Declaration}
    (h : Declares .preamble ls next ds) (hl : ∀ line ∈ ls, IsLine line) :
    (fragments (Text.unlines ls)).map Fragment.declared? = ds.map some := by
  obtain ⟨fs, hfs, hds⟩ := h 1 []
  rw [List.append_nil, fragmentsFrom, List.append_nil] at hfs
  rw [fragments, lines_unlines hl, hfs, hds]

theorem map_declared?_print (ss : List Printed) :
    (fragments (print ss)).map Fragment.declared? = (ss.flatMap Printed.declarations).map some := by
  obtain ⟨next, hnext⟩ := declares_flatMap ss .preamble
  apply hnext.map_declared?
  intro line h
  obtain ⟨p, -, hp⟩ := List.mem_flatMap.1 h
  exact p.isLine_lines line hp

end Header

theorem Session.fragments_addAll {fs : List Fragment} {ds : List Declaration}
    (h : fs.map Fragment.declared? = ds.map some) (s : Session) :
    (s.addAll fs).1.fragments =
      { s.fragments with converted := s.fragments.converted + ds.length } := by
  induction fs generalizing s ds with
  | nil =>
    obtain rfl := List.map_eq_nil_iff.1 h.symm
    rfl
  | cons f fs ih =>
    obtain ⟨d, ds, rfl, hd, hds⟩ := List.map_eq_cons_iff.1 h.symm
    rw [addAll_cons, ih hds.symm]
    rcases s.add_cases f with ⟨e, -, hnone, -⟩ | ⟨-, -, hnone, -⟩ | ⟨d', -, -, hs⟩
    · rw [hnone] at hd
      cases hd
    · rw [hnone] at hd
      cases hd
    · rw [hs, List.length_cons, Nat.add_assoc, Nat.add_comm 1]

/-- A printed header is read back. Its fragments make the declarations that it was printed from,
in their order; all are converted; and each class file holds its own declarations in that order. -/
theorem Header.read_print (ss : List Printed) :
    (fragments (print ss)).map Fragment.declared? = (ss.flatMap Printed.declarations).map some ∧
      (({} : Session).addAll (fragments (print ss))).1.fragments =
        { converted := (ss.flatMap Printed.declarations).length } ∧
      (({} : Session).addAll (fragments (print ss))).1.catalog.Sorted ∧
      ∀ file, (({} : Session).addAll (fragments (print ss))).1.catalog.body? file =
        let b := ClassBody.gather file (ss.flatMap Printed.declarations)
        if b.isEmpty then none else some b := by
  have hall := map_declared?_print ss
  have hfs : ∀ f ∈ fragments (print ss), f.OwnerRead := fun f hf => ownerRead_of_mem hf
  have hdeclared := filterMap_declared? hall
  refine ⟨hall, ?_, (Session.Reachable.start.addAll hfs).wellFormed.sorted, fun file => ?_⟩
  · rw [Session.fragments_addAll hall, Nat.zero_add]
  · rw [body?_addAll hfs, hdeclared]

namespace Header

def ownerLine : MemberLine where
  type := .single ⟨some .ofClass, ⟨"UObject", by decide, by decide, by decide +kernel, by decide,
    by decide⟩, true⟩
  identifier := by decide
  typeFits := by decide
  name := ⟨"Owner", by decide⟩
  tidy := by decide +kernel
  ending := .plain
  nameFits := by decide
  offset := ⟨"003C", by decide⟩
  size := ⟨"0004", by decide⟩
  mask := ⟨"00000002", by decide⟩
  room := 3
  flags := ["CPF_Edit", "CPF_Net"]
  flagForm := by
    intro flag hf
    simp only [List.mem_cons, List.not_mem_nil, or_false] at hf
    rcases hf with rfl | rfl
    · exact ⟨⟨by decide, by decide, by decide⟩, by decide +kernel⟩
    · exact ⟨⟨by decide, by decide, by decide⟩, by decide +kernel⟩

def actorSections : List Printed :=
  [.enumeration ⟨⟨"Engine", by decide⟩, ⟨"Actor", by decide⟩, ⟨"EPhysics", by decide⟩,
      [(⟨"PHYS_None", by decide⟩, ⟨"0", by decide⟩)]⟩,
    .members ⟨.scriptStruct, ⟨"Engine", by decide⟩, ⟨"Actor", by decide⟩, ⟨"FHit", by decide⟩,
      [ownerLine]⟩,
    .members ⟨.ofClass, ⟨"Engine", by decide⟩, ⟨"Actor", by decide⟩, ⟨"AActor", by decide⟩,
      [ownerLine]⟩]

theorem read_print_actor :
    (fragments (print actorSections)).map Fragment.declared? =
      [some (.enumeration ⟨⟨"Engine", "Actor", "EPhysics"⟩, ["PHYS_None"]⟩),
        some (.member ⟨some ⟨"Engine", "Actor"⟩, "Owner", "Object", ⟨[.edit, .net], by decide⟩⟩)] ∧
    (({} : Session).addAll (fragments (print actorSections))).1.catalog.body?
        ⟨"Engine", "Actor"⟩ =
      some ⟨⟨"Engine", "Actor"⟩, [⟨⟨"Engine", "Actor", "EPhysics"⟩, ["PHYS_None"]⟩],
        [⟨some ⟨"Engine", "Actor"⟩, "Owner", "Object", ⟨[.edit, .net], by decide⟩⟩]⟩ := by
  obtain ⟨hall, -, -, hbody⟩ := read_print actorSections
  rw [hall, hbody]
  constructor
  · decide +kernel
  · decide +kernel

end Header

end UnrealDecl
