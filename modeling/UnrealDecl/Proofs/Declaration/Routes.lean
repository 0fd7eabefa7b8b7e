import UnrealDecl.CommandLine.Execution
import UnrealDecl.Proofs.Conversion.Grouping
import UnrealDecl.Proofs.Declaration.Block

namespace UnrealDecl

theorem occurs_brace {text : Text} : Text.occurs "\x7b" text = true ↔ '\x7b' ∈ text :=
  Text.occurs_singleton

namespace Enumeration

variable {block : Text}

theorem kind_of_qualifierOf {e : DeclError} (h : qualifierOf block = .error e) :
    e.kind = .invalidEnumeration := by
  rw [qualifierOf] at h
  split at h
  · cases h
    rfl
  · split at h
    · cases h
      rfl
    · split at h
      · cases h
        rfl
      · cases h

theorem kind_of_parse {e : DeclError} (h : parse block = .error e) :
    e.kind = .invalidEnumeration := by
  rw [parse] at h
  cases hq : qualifierOf block with
  | error cause =>
    rw [hq] at h
    cases h
    exact kind_of_qualifierOf hq
  | ok qualifier =>
    rw [hq] at h
    dsimp only at h
    split at h
    · cases h
      rfl
    · cases h

theorem brace_mem_of_parse {e : Enumeration} (h : parse block = .ok e) : '\x7b' ∈ block := by
  obtain ⟨-, body, hbody, -⟩ := parse_eq_ok_iff.1 h
  obtain ⟨front, -, -, hp⟩ := body?_eq_some_iff.1 hbody
  exact hp.subset (by simp)

end Enumeration

theorem Variable.kind_of_parse {line : Text} {e : DeclError}
    (h : (parse line).result = .error e) : e.kind ≠ .invalidEnumeration := by
  intro hk
  rw [parse] at h
  cases hh : head line with
  | ok found =>
    rw [hh] at h
    cases h
  | error cause =>
    rw [hh] at h
    cases h
    rw [head] at hh
    split at hh
    · cases hh
      cases hk
    · cases hh
      cases hk
    · split at hh
      · cases hh
        cases hk
      · cases hh

namespace Fragment

namespace Kind

/-- The kind of fragment that a text has by its shape. -/
def ofShape (text : Text) : Kind :=
  if '\x7b' ∈ text then .enumeration else .member

/-- The kind of fragment that a result comes from, be it a declaration or an error. -/
def ofResult : Except DeclError Declaration → Kind
  | .ok (.member _) => .member
  | .ok (.enumeration _) => .enumeration
  | .error e => if e.kind = .invalidEnumeration then .enumeration else .member

theorem ofShape_eq_iff {k : Kind} {text : Text} :
    ofShape text = k ↔ ('\x7b' ∈ text ↔ k = .enumeration) := by
  rw [ofShape]
  cases k <;> by_cases h : '\x7b' ∈ text <;> simp [h]

end Kind

theorem ofResult_read (f : Fragment) : Kind.ofResult f.read.result = f.kind := by
  rw [read]
  cases f.kind with
  | enumeration =>
    cases h : Enumeration.parse f.text with
    | ok e => simp [Except.map, Kind.ofResult]
    | error e => simp [Except.map, Kind.ofResult, Enumeration.kind_of_parse h]
  | member =>
    cases h : (Variable.parse f.text).result with
    | ok v => simp [h, Reading.map, Except.map, Kind.ofResult]
    | error e => simp [h, Reading.map, Except.map, Kind.ofResult, Variable.kind_of_parse h]

/-- A text is read by its shape as a fragment of that kind is. -/
theorem parse_text (f : Fragment) :
    Declaration.parse f.text = { f with kind := Kind.ofShape f.text : Fragment }.read := by
  rw [Declaration.parse, Kind.ofShape]
  by_cases h : '\x7b' ∈ f.text
  · rw [if_pos h, if_pos (occurs_brace.2 h)]
    rfl
  · rw [if_neg h, if_neg (mt occurs_brace.1 h)]
    rfl

end Fragment

theorem Session.render_add {s : Session} (hs : s.catalog.Sorted) {f : Fragment}
    {owner : ClassFile} (hk : f.kind = .member) (hshape : '\x7b' ∉ f.text)
    (ho : f.owner = some owner) :
    ((s.add f).1.catalog.bodyOf owner).render =
      (s.catalog.bodyOf owner).render ++
        (CommandLine.convertDeclaration f.text false).out := by
  have hread : Declaration.parse f.text = (Variable.parse f.text).map .member := by
    rw [Declaration.parse, if_neg (mt occurs_brace.1 hshape)]
  have hdeclared := Fragment.declared?_member hk
  rw [ho, Option.bind_some, Fragment.asVariable?, hk] at hdeclared
  rw [CommandLine.convertDeclaration, hread, Reading.map]
  cases hv : (Variable.parse f.text).result with
  | error e =>
    rw [hv] at hdeclared
    rw [s.catalog_add, hdeclared]
    exact (List.append_nil _).symm
  | ok v =>
    rw [hv] at hdeclared
    have hgather : ClassBody.gather owner [.member (v.inClass owner)] =
        ⟨owner, [], [v.inClass owner]⟩ := by
      simp [ClassBody.gather, Declaration.enumerationIn?, Declaration.memberIn?, Variable.inClass]
    have hbody := hs.bodyOf_insertAll [.member (v.inClass owner)] owner
    rw [hgather, List.append_nil] at hbody
    rw [s.catalog_add, hdeclared]
    change (Catalog.bodyOf (s.catalog.insertAll [.member (v.inClass owner)]) owner).render = _
    rw [hbody, ClassBody.render, ClassBody.render, List.flatMap_append, List.flatMap_singleton,
      v.render_inClass, List.append_assoc]
    rfl

/-- A fragment is read alike as what it was cut out as and by its shape exactly if it has an opening
brace where it is an enumeration; else already the kinds of the results differ. -/
theorem Fragment.routes_agree (f : Fragment) :
    (f.read.result = (Declaration.parse f.text).result ∧
        f.read.unknown = (Declaration.parse f.text).unknown ↔
      ('\x7b' ∈ f.text ↔ f.kind = .enumeration)) ∧
    (Kind.ofResult f.read.result = Kind.ofResult (Declaration.parse f.text).result ↔
      ('\x7b' ∈ f.text ↔ f.kind = .enumeration)) ∧
    (∀ d, f.kind = .enumeration → f.read.result = .ok d → Declaration.parse f.text = f.read) ∧
    ∀ (s : Session) (owner : ClassFile), s.catalog.Sorted → f.kind = .member → '\x7b' ∉ f.text →
      f.owner = some owner →
      ((s.add f).1.catalog.bodyOf owner).render =
        (s.catalog.bodyOf owner).render ++
          (CommandLine.convertDeclaration f.text false).out := by
  have hkinds : Kind.ofResult f.read.result = Kind.ofResult (Declaration.parse f.text).result ↔
      ('\x7b' ∈ f.text ↔ f.kind = .enumeration) := by
    rw [f.parse_text, ofResult_read, ofResult_read, eq_comm]
    exact Kind.ofShape_eq_iff
  have hsame : ('\x7b' ∈ f.text ↔ f.kind = .enumeration) → Declaration.parse f.text = f.read := by
    intro h
    rw [f.parse_text, Kind.ofShape_eq_iff.2 h]
  refine ⟨⟨?_, ?_⟩, hkinds, ?_, ?_⟩
  · rintro ⟨hresult, -⟩
    exact hkinds.1 (congrArg Kind.ofResult hresult)
  · intro h
    rw [hsame h]
    exact ⟨rfl, rfl⟩
  · intro d hk hd
    apply hsame
    rw [Fragment.read, hk] at hd
    cases he : Enumeration.parse f.text with
    | error e =>
      rw [he] at hd
      cases hd
    | ok e => exact iff_of_true (Enumeration.brace_mem_of_parse he) hk
  · intro s owner hs hk hshape ho
    exact s.render_add hs hk hshape ho

def healthFragment : Fragment :=
  ⟨.member, some ⟨"Core", "Object"⟩, "\tint   Health;   // 0x40 (0x4) [0x0] ( CPF_Edit )", 2⟩

def cutFragment : Fragment :=
  ⟨.enumeration, none, "// Enum   Core.Object.EAxis   \n", 1⟩

theorem routes_agree_health :
    ((({} : Session).add healthFragment).1.catalog.bodyOf ⟨"Core", "Object"⟩).render =
        "var() int Health;\n" ∧
      cutFragment.read.result ≠ (Declaration.parse cutFragment.text).result ∧
      (CommandLine.convertDeclaration cutFragment.text false).out =
        "var // Core.Object.EAxis;\n" := by
  obtain ⟨-, -, -, hrender⟩ := healthFragment.routes_agree
  obtain ⟨-, hkinds, -⟩ := cutFragment.routes_agree
  refine ⟨?_, fun h => ?_, by decide +kernel⟩
  · rw [hrender {} ⟨"Core", "Object"⟩ Catalog.sorted_empty rfl (by decide) rfl]
    decide +kernel
  · exact absurd ((hkinds.1 (congrArg Fragment.Kind.ofResult h)).2 rfl) (by decide)

end UnrealDecl
