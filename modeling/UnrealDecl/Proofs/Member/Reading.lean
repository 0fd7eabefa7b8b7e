import UnrealDecl.Declaration.Variable
import UnrealDecl.Proofs.Member.Columns

namespace UnrealDecl

namespace TypeName

/-- The name in UnrealScript of a type that is neither an array nor a delegate. -/
def mapped (word : Text) : Text :=
  (exact.lookup word).getD (stripClassLetter word)

/-- The word that spells the type of a declaration: the first, or behind an array the second. -/
def subject? : List Text → Option Text
  | [] => none
  | first :: rest => if first = array then rest.head? else some first

theorem mem_of_subject? {words : List Text} {word : Text} (h : subject? words = some word) :
    word ∈ words := by
  cases words with
  | nil => cases h
  | cons first rest =>
    rw [subject?] at h
    split at h
    · exact .tail _ (List.mem_of_head? h)
    · cases h
      exact .head _

theorem base_eq_named {word name : Text} (h : base word = .ok (.named name)) :
    word ≠ [] ∧ name = mapped word := by
  rw [base] at h
  split at h
  · cases h
  · split at h
    · cases h
    · rw [mapped]
      cases hl : exact.lookup word with
      | some known =>
        rw [hl] at h
        cases h
        have hnone : exact.lookup [] = none := by decide
        refine ⟨?_, rfl⟩
        rintro rfl
        rw [hnone] at hl
        cases hl
      | none =>
        rw [hl] at h
        dsimp only at h
        split at h
        · cases h
        · rename_i hne
          cases h
          exact ⟨fun he => hne (List.isEmpty_iff.2 he), rfl⟩

theorem base_array : base array = .ok .array := by
  decide

theorem base_eq_array {word : Text} (h : base word = .ok .array) : word = array := by
  rw [base] at h
  split at h
  · cases h
  · split at h
    · assumption
    · split at h
      · cases h
      · split at h <;> cases h

theorem exists_subject {words : List Text} {name : Text} (h : ofWords words = .ok name) :
    ∃ word, subject? words = some word ∧ word ≠ [] ∧
      name = if words.head? = some array then "array<" ++ mapped word ++ ">" else mapped word := by
  cases words with
  | nil => cases h
  | cons first rest =>
    rw [ofWords.eq_def] at h
    dsimp only at h
    cases hb : base first with
    | error refusal =>
      rw [hb] at h
      cases h
    | ok found =>
      rw [hb] at h
      cases found with
      | named bare =>
        cases h
        obtain ⟨hne, hname⟩ := base_eq_named hb
        have harray : first ≠ array := by
          rintro rfl
          rw [base_array] at hb
          cases hb
        refine ⟨first, by rw [subject?, if_neg harray], hne, ?_⟩
        rw [List.head?_cons, if_neg fun he => harray (Option.some.inj he)]
        exact hname
      | array =>
        obtain rfl := base_eq_array hb
        cases rest with
        | nil => cases h
        | cons element rest =>
          dsimp only at h
          split at h
          · cases h
          · cases he : base element with
            | error refusal =>
              rw [he] at h
              cases h
            | ok found =>
              rw [he] at h
              cases found with
              | array => cases h
              | named bare =>
                cases h
                obtain ⟨hne, rfl⟩ := base_eq_named he
                refine ⟨element, by rw [subject?, if_pos rfl, List.head?_cons], hne, ?_⟩
                rw [List.head?_cons, if_pos rfl]

theorem mem_exact_of_lookup {word known : Text} (h : exact.lookup word = some known) :
    (word, known) ∈ exact := by
  obtain ⟨front, back, hexact, -⟩ := List.lookup_eq_some_iff.1 h
  rw [hexact]
  exact List.mem_append_right _ (.head _)

theorem mem_of_mem_mapped {c : Char} {word : Text} (h : c ∈ mapped word) :
    c ∈ word ∨ ∃ entry ∈ exact, c ∈ entry.2 := by
  rw [mapped] at h
  cases hl : exact.lookup word with
  | some known =>
    rw [hl] at h
    exact .inr ⟨(word, known), mem_exact_of_lookup hl, h⟩
  | none =>
    rw [hl, Option.getD_none] at h
    cases word with
    | nil => cases h
    | cons d rest =>
      rw [stripClassLetter] at h
      split at h
      · exact .inl (.tail _ h)
      · exact .inl h

/-- Nothing is left of a type exactly where it is spelled by the letter of a class alone. -/
theorem mapped_eq_nil_iff {word : Text} (hne : word ≠ []) :
    mapped word = [] ↔ ∃ c, isUpper c = true ∧ word = [c] := by
  rw [mapped]
  cases hl : exact.lookup word with
  | some known =>
    have hlong : ∀ entry ∈ exact, entry.2 ≠ [] ∧ 1 < entry.1.length := by decide
    obtain ⟨hknown, hlength⟩ := hlong _ (mem_exact_of_lookup hl)
    refine ⟨fun h => absurd h hknown, ?_⟩
    rintro ⟨c, -, rfl⟩
    exact absurd hlength (Nat.lt_irrefl 1)
  | none =>
    obtain ⟨c, rest, rfl⟩ := List.exists_cons_of_ne_nil hne
    rw [Option.getD_none, stripClassLetter]
    cases hc : isUpper c with
    | true => simp [hc]
    | false =>
      rw [if_neg Bool.false_ne_true]
      refine ⟨fun h => absurd h (List.cons_ne_nil c rest), ?_⟩
      rintro ⟨d, hd, he⟩
      cases he
      rw [hc] at hd
      cases hd

end TypeName

namespace Variable

/-- A member line is read where its words tell a type and one of its columns is a name. -/
theorem head_eq_ok_iff {line typeName name : Text} :
    head line = .ok (typeName, name) ↔
      TypeName.ofWords (Text.words (Member.clean line)) = .ok typeName ∧
        Member.name? (Member.clean line) = some name := by
  rw [head]
  cases TypeName.ofWords (Text.words (Member.clean line)) with
  | error refusal => cases refusal <;> simp
  | ok found => cases Member.name? (Member.clean line) <;> simp

theorem head_of_parse {line : Text} {v : Variable} (h : (parse line).result = .ok v) :
    head line = .ok (v.typeName, v.name) := by
  rw [parse] at h
  cases hh : head line with
  | error e =>
    rw [hh] at h
    cases h
  | ok found =>
    rw [hh] at h
    cases h
    rfl

end Variable

end UnrealDecl
