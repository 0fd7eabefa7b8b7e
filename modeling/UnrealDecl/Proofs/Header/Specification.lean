import UnrealDecl.Proofs.Header.Scan

namespace UnrealDecl.Header

/-- Line `i`, counted from 0, opens an enumeration: it has the marker, and no block opened before
it holds it. -/
def Opens (ls : List Text) (i : Nat) : Prop :=
  (∃ line, ls[i]? = some line ∧ enumMarker <+: Text.trim line) ∧
    ∀ j, j < i → Opens ls j → j + (block (ls.drop j)).length ≤ i
termination_by i

/-- Line `i` belongs to the block of an enumeration. -/
def InBlock (ls : List Text) (i : Nat) : Prop :=
  ∃ j, j ≤ i ∧ Opens ls j ∧ i < j + (block (ls.drop j)).length

/-- The first `n` lines leave a section in force: that of their last marker outside of blocks. -/
inductive InForce (ls : List Text) (n : Nat) : Section → Prop
  | marked {k : Nat} {line : Text} {sec : Section} (before : k < n) (here : ls[k]? = some line)
      (outside : ¬ InBlock ls k) (begins : Begins line sec)
      (last : ∀ j, k < j → j < n → ¬ InBlock ls j →
        ∀ line' sec', ls[j]? = some line' → ¬ Begins line' sec') : InForce ls n sec
  | unmarked (none : ∀ k, k < n → ¬ InBlock ls k →
        ∀ line sec, ls[k]? = some line → ¬ Begins line sec) : InForce ls n .preamble

/-- The fragment that stands at line `i`. -/
inductive FragmentAt (ls : List Text) (i : Nat) : Fragment → Prop
  | block (opens : Opens ls i) :
      FragmentAt ls i ⟨.enumeration, none, Text.unlines (block (ls.drop i)), i + 1⟩
  | member {line : Text} {owner : ClassFile} (here : ls[i]? = some line)
      (outside : ¬ InBlock ls i) (sec : InForce ls (i + 1) (.ofClass owner))
      (isMember : isMember line = true) : FragmentAt ls i ⟨.member, some owner, line, i + 1⟩

/-- No block opened before line `i` reaches it. -/
def Clear (ls : List Text) (i : Nat) : Prop :=
  ∀ j, j < i → Opens ls j → j + (block (ls.drop j)).length ≤ i

theorem opens_iff {ls : List Text} {i : Nat} :
    Opens ls i ↔ (∃ line, ls[i]? = some line ∧ enumMarker <+: Text.trim line) ∧ Clear ls i := by
  rw [Opens]
  rfl

theorem Opens.inBlock {ls : List Text} {i : Nat} (h : Opens ls i) : InBlock ls i := by
  obtain ⟨⟨line, hl, -⟩, -⟩ := opens_iff.1 h
  exact ⟨i, Nat.le_refl i, h, Nat.lt_add_of_pos_right (block_length_pos hl)⟩

theorem Clear.not_inBlock {ls : List Text} {i : Nat} (hc : Clear ls i) (ho : ¬ Opens ls i) :
    ¬ InBlock ls i := by
  rintro ⟨j, hj, hopen, hlt⟩
  rcases Nat.lt_or_eq_of_le hj with h | rfl
  · exact absurd (hc j h hopen) (Nat.not_le.2 hlt)
  · exact ho hopen

theorem Clear.succ {ls : List Text} {i : Nat} (hc : Clear ls i) (ho : ¬ Opens ls i) :
    Clear ls (i + 1) := by
  intro j hj hopen
  rcases Nat.lt_or_eq_of_le (Nat.le_of_lt_succ hj) with h | rfl
  · exact Nat.le_succ_of_le (hc j h hopen)
  · exact absurd hopen ho

theorem Opens.not_opens {ls : List Text} {i k : Nat} (h : Opens ls i) (hik : i < k)
    (hk : k < i + (block (ls.drop i)).length) : ¬ Opens ls k := by
  intro hopen
  have := (opens_iff.1 hopen).2 i hik h
  omega

theorem Opens.clear {ls : List Text} {i : Nat} (h : Opens ls i) :
    Clear ls (i + (block (ls.drop i)).length) := by
  intro j hj hopen
  rcases Nat.lt_trichotomy j i with hlt | rfl | hgt
  · have := (opens_iff.1 h).2 j hlt hopen
    omega
  · exact Nat.le_refl _
  · exact absurd hopen (h.not_opens hgt hj)

theorem InForce.unique {ls : List Text} {n : Nat} {s t : Section} (hs : InForce ls n s)
    (ht : InForce ls n t) : s = t := by
  cases hs with
  | unmarked none =>
    cases ht with
    | unmarked => rfl
    | marked before here outside begins last =>
      exact absurd begins (none _ before outside _ _ here)
  | @marked k _ _ before here outside begins last =>
    cases ht with
    | unmarked none => exact absurd begins (none _ before outside _ _ here)
    | @marked k' _ _ before' here' outside' begins' last' =>
      rcases Nat.lt_trichotomy k k' with h | rfl | h
      · exact absurd begins' (last _ h before' outside' _ _ here')
      · cases here.symm.trans here'
        exact begins.unique begins'
      · exact absurd begins (last' _ h before outside _ _ here)

theorem InForce.extend {ls : List Text} {n m : Nat} {sec : Section} (h : InForce ls n sec)
    (hnm : n ≤ m) (hno : ∀ k, n ≤ k → k < m → ¬ InBlock ls k →
      ∀ line next, ls[k]? = some line → ¬ Begins line next) : InForce ls m sec := by
  cases h with
  | marked before here outside begins last =>
    refine .marked (Nat.lt_of_lt_of_le before hnm) here outside begins ?_
    intro j hkj hjm hout
    rcases Nat.lt_or_ge j n with hjn | hjn
    · exact last j hkj hjn hout
    · exact hno j hjn hjm hout
  | unmarked none =>
    refine .unmarked ?_
    intro k hkm hout
    rcases Nat.lt_or_ge k n with hkn | hkn
    · exact none k hkn hout
    · exact hno k hkn hkm hout

theorem Begins.inForce {ls : List Text} {i : Nat} {line : Text} {next : Section}
    (h : Begins line next) (hl : ls[i]? = some line) (hout : ¬ InBlock ls i) :
    InForce ls (i + 1) next :=
  .marked (Nat.lt_succ_self i) hl hout h fun _ hij hji =>
    absurd hij (Nat.not_lt.2 (Nat.le_of_lt_succ hji))

theorem Opens.marker {ls : List Text} {i : Nat} {line : Text} (h : Opens ls i)
    (hl : ls[i]? = some line) : enumMarker <+: Text.trim line := by
  obtain ⟨⟨line', hl', hp⟩, -⟩ := opens_iff.1 h
  cases hl.symm.trans hl'
  exact hp

theorem Begins.not_opener {line : Text} {next : Section} (h : Begins line next) :
    ¬ enumMarker <+: Text.trim line := by
  intro hp
  cases (of_eq_marker_iff.2 h).symm.trans (of_eq_opener_iff.2 hp)

theorem FragmentAt.lt_length {ls : List Text} {i : Nat} {f : Fragment} (h : FragmentAt ls i f) :
    i < ls.length := by
  cases h with
  | block opens =>
    obtain ⟨⟨line, hl, -⟩, -⟩ := opens_iff.1 opens
    exact (List.getElem?_eq_some_iff.1 hl).1
  | member here => exact (List.getElem?_eq_some_iff.1 here).1

theorem Opens.not_fragmentAt {ls : List Text} {i k : Nat} {f : Fragment} (h : Opens ls i)
    (hik : i < k) (hk : k < i + (block (ls.drop i)).length) : ¬ FragmentAt ls k f := by
  intro hf
  cases hf with
  | block opens => exact h.not_opens hik hk opens
  | member here outside => exact outside ⟨i, Nat.le_of_lt hik, h, hk⟩

theorem exists_ge_iff {p : Nat → Prop} {i : Nat} :
    (∃ k, i ≤ k ∧ p k) ↔ p i ∨ ∃ k, i + 1 ≤ k ∧ p k := by
  constructor
  · rintro ⟨k, hk, h⟩
    rcases Nat.eq_or_lt_of_le hk with rfl | hk
    · exact .inl h
    · exact .inr ⟨k, hk, h⟩
  · rintro (h | ⟨k, hk, h⟩)
    · exact ⟨i, Nat.le_refl i, h⟩
    · exact ⟨k, Nat.le_of_succ_le hk, h⟩

theorem fragmentAt_opener_iff {ls : List Text} {i : Nat} {f : Fragment} (h : Opens ls i) :
    FragmentAt ls i f ↔
      f = ⟨.enumeration, none, Text.unlines (block (ls.drop i)), i + 1⟩ := by
  constructor
  · intro hf
    cases hf with
    | block => rfl
    | member here outside => exact absurd h.inBlock outside
  · rintro rfl
    exact .block h

theorem fragmentAt_plain_iff {ls : List Text} {i : Nat} {line : Text} {sec : Section}
    {f : Fragment} (hl : ls[i]? = some line) (hout : ¬ InBlock ls i)
    (hsec : InForce ls (i + 1) sec) :
    FragmentAt ls i f ↔ f ∈ memberFragment sec (i + 1) line := by
  rw [mem_memberFragment_iff]
  constructor
  · intro hf
    cases hf with
    | block opens => exact absurd opens.inBlock hout
    | member here outside sec' isMember =>
      cases hl.symm.trans here
      exact ⟨_, hsec.unique sec', isMember, rfl⟩
  · rintro ⟨owner, rfl, hm, rfl⟩
    exact .member hl hout hsec hm

/-- A scan that starts clear of blocks, in the section in force, finds the fragments from its
first line on. -/
theorem mem_fragmentsFrom_iff {ls : List Text} {f : Fragment} {sec : Section} {number : Nat}
    {rest : List Text} {i : Nat} (hn : number = i + 1) (hr : ls.drop i = rest)
    (hc : Clear ls i) (hs : InForce ls i sec) :
    f ∈ fragmentsFrom sec number rest ↔ ∃ k, i ≤ k ∧ FragmentAt ls k f := by
  induction sec, number, rest using scan_induction generalizing i with
  | nil =>
    simp only [fragmentsFrom, List.not_mem_nil, false_iff]
    rintro ⟨k, hk, hf⟩
    have := List.drop_eq_nil_iff.1 hr
    have := hf.lt_length
    omega
  | marker sec number line rest next hb ih =>
    subst hn
    obtain ⟨hl, hr⟩ := drop_eq_cons hr
    have ho : ¬ Opens ls i := fun h => hb.not_opener (h.marker hl)
    have hout := hc.not_inBlock ho
    have hnext := hb.inForce hl hout
    rw [fragmentsFrom_marker hb, ih rfl hr (hc.succ ho) hnext, exists_ge_iff (i := i),
      fragmentAt_plain_iff hl hout hnext, mem_memberFragment_iff, hb.isMember_eq_false]
    simp
  | opener sec number line rest hp ih =>
    subst hn
    obtain ⟨hl, -⟩ := drop_eq_cons hr
    have ho : Opens ls i := opens_iff.2 ⟨⟨line, hl, hp⟩, hc⟩
    have hdrop : ls.drop (i + (block (line :: rest)).length) =
        (line :: rest).drop (block (line :: rest)).length := by
      rw [← hr, List.drop_drop]
    have hclear := ho.clear
    have hskip : ∀ k, i < k → k < i + (block (line :: rest)).length → ¬ FragmentAt ls k f := by
      rw [← hr]
      exact fun k => ho.not_fragmentAt
    rw [hr] at hclear
    have hnext : InForce ls (i + (block (line :: rest)).length) sec := by
      apply hs.extend (Nat.le_add_right _ _)
      intro k hik hk hout
      rw [← hr] at hk
      exact absurd ⟨i, hik, ho, hk⟩ hout
    rw [fragmentsFrom_opener hp, List.mem_cons, ih (Nat.add_right_comm i 1 _) hdrop hclear hnext,
      ← hr, ← fragmentAt_opener_iff ho, hr]
    constructor
    · rintro (h | ⟨k, hk, h⟩)
      · exact ⟨i, Nat.le_refl i, h⟩
      · exact ⟨k, by omega, h⟩
    · rintro ⟨k, hk, h⟩
      rcases Nat.eq_or_lt_of_le hk with rfl | hlt
      · exact .inl h
      · exact .inr ⟨k, Nat.le_of_not_lt fun hin => hskip k hlt hin h, h⟩
  | plain sec number line rest hm hp ih =>
    subst hn
    obtain ⟨hl, hr⟩ := drop_eq_cons hr
    have ho : ¬ Opens ls i := fun h => hp (h.marker hl)
    have hout := hc.not_inBlock ho
    have hnext : InForce ls (i + 1) sec := by
      apply hs.extend (Nat.le_succ i)
      intro k hik hk _ line' next hl' hb
      obtain rfl : k = i := Nat.le_antisymm (Nat.le_of_lt_succ hk) hik
      cases hl.symm.trans hl'
      exact hm next hb
    rw [fragmentsFrom_plain hm hp, List.mem_append, ih rfl hr (hc.succ ho) hnext,
      exists_ge_iff (i := i), fragmentAt_plain_iff hl hout hnext]

theorem mem_fragments_iff {source : Text} {f : Fragment} :
    f ∈ fragments source ↔ ∃ i, FragmentAt (Text.lines source) i f := by
  have hclear : Clear (Text.lines source) 0 := fun j hj => absurd hj (Nat.not_lt_zero j)
  have hforce : InForce (Text.lines source) 0 .preamble :=
    .unmarked fun k hk => absurd hk (Nat.not_lt_zero k)
  rw [fragments]
  refine (mem_fragmentsFrom_iff rfl rfl hclear hforce).trans ?_
  exact exists_congr fun k => and_iff_right (Nat.zero_le k)

theorem exists_owner_of_mem {source : Text} {f : Fragment} (h : f ∈ fragments source)
    (hk : f.kind = .member) :
    ∃ owner dotted, f.owner = some owner ∧ ClassFile.parse? dotted = some owner := by
  obtain ⟨i, hf⟩ := mem_fragments_iff.1 h
  cases hf with
  | block => cases hk
  | member here outside sec =>
    cases sec with
    | marked before here outside begins =>
      cases begins with
      | ofClass marker name => exact ⟨_, _, rfl, name⟩

/-- A scan finds the block of each enumeration that opens outside of other blocks, and each member
line outside of blocks in the section of a class, in the order of their lines. -/
theorem fragments_iff (source : Text) :
    (fragments source).Pairwise (fun f g => f.line < g.line) ∧
      (∀ f, f ∈ fragments source ↔ ∃ i, FragmentAt (Text.lines source) i f) ∧
      ∀ i j, Opens (Text.lines source) i → Opens (Text.lines source) j → i < j →
        i + (block ((Text.lines source).drop i)).length ≤ j := by
  refine ⟨pairwise_line _ _ _, fun f => mem_fragments_iff, fun i j hi hj hij => ?_⟩
  exact (opens_iff.1 hj).2 i hij hi

def axes : Text :=
  Text.unlines ["// Enum Core.Object.EAxis", "\x7b\x7d;", "", "// Enum Core.Object.EPlane", "\x7b",
    "\x7d;"]

theorem fragments_iff_axes :
    Opens (Text.lines axes) 0 ∧ Opens (Text.lines axes) 3 ∧
      0 + (block ((Text.lines axes).drop 0)).length ≤ 3 ∧
      ∃ i, FragmentAt (Text.lines axes) i
        ⟨.enumeration, none, "// Enum Core.Object.EPlane\n\x7b\n\x7d;\n", 4⟩ := by
  have hclear : Clear (Text.lines axes) 0 := fun j hj => absurd hj (Nat.not_lt_zero j)
  have hfirst : Opens (Text.lines axes) 0 :=
    opens_iff.2 ⟨⟨"// Enum Core.Object.EAxis", by decide +kernel, by decide +kernel⟩, hclear⟩
  have hsecond : Opens (Text.lines axes) 3 := by
    refine opens_iff.2 ⟨⟨"// Enum Core.Object.EPlane", by decide +kernel, by decide +kernel⟩, ?_⟩
    intro j hj hopens
    have hline : ∀ line, (Text.lines axes)[j]? = some line → enumMarker <+: Text.trim line :=
      fun line hl => hopens.marker hl
    match j, hj with
    | 0, _ => decide +kernel
    | 1, _ => decide +kernel
    | 2, _ => exact absurd (hline [] (by decide +kernel)) (by decide)
  obtain ⟨-, hmem, hapart⟩ := fragments_iff axes
  exact ⟨hfirst, hsecond, hapart 0 3 hfirst hsecond (by decide),
    (hmem _).1 (by decide +kernel)⟩

end UnrealDecl.Header
