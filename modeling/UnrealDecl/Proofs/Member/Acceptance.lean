import UnrealDecl.Proofs.Member.Division
import UnrealDecl.Proofs.Member.Reading

namespace UnrealDecl

namespace TypeName

/-- The words name a delegate, or an array of delegates. -/
def IsDelegate (words : List Text) : Prop :=
  words[0]? = some delegate ∨ words[0]? = some array ∧ words[1]? = some delegate

/-- The words name no type: there are none, or an array has no element, or one that is an array or
padding. -/
def IsMissing (words : List Text) : Prop :=
  words = [] ∨ words[0]? = some array ∧
    ∀ element, words[1]? = some element → element = array ∨ padding <:+: element

theorem base_eq {word : Text} (h : word ≠ []) :
    base word =
      if word = delegate then .error .unsupported
      else if word = array then .ok .array else .ok (.named (mapped word)) := by
  rw [base, mapped]
  split
  · rfl
  · split
    · rfl
    · cases exact.lookup word with
      | some known => rfl
      | none =>
        dsimp only
        rw [if_neg (by simpa using h), Option.getD_none]

section Array

variable {element : Text} {rest : List Text}

theorem array_ne_delegate : array ≠ delegate := by
  decide

theorem padding_not_infix_delegate : ¬ padding <:+: delegate := by
  decide

theorem isDelegate_array : IsDelegate (array :: element :: rest) ↔ element = delegate := by
  simp [IsDelegate, array_ne_delegate]

theorem isMissing_array :
    IsMissing (array :: element :: rest) ↔ element = array ∨ padding <:+: element := by
  simp [IsMissing]

theorem ofWords_array (h : element ≠ []) :
    ofWords (array :: element :: rest) =
      if padding <:+: element then .error .unusable
      else if element = delegate then .error .unsupported
      else if element = array then .error .unusable
      else .ok ("array<" ++ mapped element ++ ">") := by
  rw [ofWords, base_array]
  dsimp only
  by_cases hpadding : padding <:+: element
  · rw [if_pos (Text.occurs_iff.2 hpadding), if_pos hpadding]
  · rw [if_neg (mt Text.occurs_iff.1 hpadding), if_neg hpadding, base_eq h]
    by_cases hdelegate : element = delegate
    · rw [if_pos hdelegate, if_pos hdelegate]
    · rw [if_neg hdelegate, if_neg hdelegate]
      by_cases hnested : element = array
      · rw [if_pos hnested, if_pos hnested]
      · rw [if_neg hnested, if_neg hnested]

end Array

section Plain

variable {first : Text} (rest : List Text) (h : first ≠ array)

include h

theorem isDelegate_plain : IsDelegate (first :: rest) ↔ first = delegate := by
  simp [IsDelegate, h]

theorem not_isMissing_plain : ¬ IsMissing (first :: rest) := by
  simp [IsMissing, h]

theorem ofWords_plain (hne : first ≠ []) :
    ofWords (first :: rest) =
      if first = delegate then .error .unsupported else .ok (mapped first) := by
  rw [ofWords.eq_def]
  dsimp only
  rw [base_eq hne, if_neg h]
  by_cases hdelegate : first = delegate
  · rw [if_pos hdelegate, if_pos hdelegate]
  · rw [if_neg hdelegate, if_neg hdelegate]

end Plain

/-- Words name a delegate, or no type, or a type. -/
theorem ofWords_cases {words : List Text} (h : ∀ word ∈ words, word ≠ []) :
    (IsDelegate words ∧ ofWords words = .error .unsupported) ∨
      (¬ IsDelegate words ∧ IsMissing words ∧ ofWords words = .error .unusable) ∨
      (¬ IsDelegate words ∧ ¬ IsMissing words ∧ ∃ name, ofWords words = .ok name) := by
  cases words with
  | nil => exact .inr (.inl ⟨by simp [IsDelegate], .inl rfl, rfl⟩)
  | cons first rest =>
    by_cases harray : first = array
    · subst harray
      cases rest with
      | nil => exact .inr (.inl ⟨by simp [IsDelegate, array_ne_delegate], by simp [IsMissing], rfl⟩)
      | cons element rest =>
        rw [isDelegate_array, isMissing_array, ofWords_array (h element (.tail _ (.head _)))]
        by_cases hpadding : padding <:+: element
        · -- a delegate is not padding, so it does not matter which of them is looked for first
          have hplain : element ≠ delegate := fun he => padding_not_infix_delegate (he ▸ hpadding)
          exact .inr (.inl ⟨hplain, .inr hpadding, if_pos hpadding⟩)
        · by_cases hdelegate : element = delegate
          · exact .inl ⟨hdelegate, by rw [if_neg hpadding, if_pos hdelegate]⟩
          · by_cases hnested : element = array
            · exact .inr (.inl ⟨hdelegate, .inl hnested,
                by rw [if_neg hpadding, if_neg hdelegate, if_pos hnested]⟩)
            · exact .inr (.inr ⟨hdelegate, not_or.2 ⟨hnested, hpadding⟩, _,
                by rw [if_neg hpadding, if_neg hdelegate, if_neg hnested]⟩)
    · rw [isDelegate_plain rest harray, ofWords_plain rest harray (h first (.head _))]
      by_cases hdelegate : first = delegate
      · exact .inl ⟨hdelegate, if_pos hdelegate⟩
      · exact .inr (.inr ⟨hdelegate, not_isMissing_plain rest harray, _, if_neg hdelegate⟩)

end TypeName

namespace Variable

open UnrealDecl.TypeName (IsDelegate IsMissing)

variable (line : Text)

def wordsOf : List Text :=
  Text.words (Member.clean line)

/-- A line is refused for its type first, and then for its name. -/
theorem parse_cases :
    (IsDelegate (wordsOf line) ∧
        (parse line).result = .error (.unsupported (quotation line))) ∨
      (¬ IsDelegate (wordsOf line) ∧ IsMissing (wordsOf line) ∧
        (parse line).result = .error (.noType (quotation line))) ∨
      (¬ IsDelegate (wordsOf line) ∧ ¬ IsMissing (wordsOf line) ∧
        ¬ Member.Named (Member.clean line) ∧
        (parse line).result = .error (.noName (quotation line))) ∨
      (¬ IsDelegate (wordsOf line) ∧ ¬ IsMissing (wordsOf line) ∧
        Member.Named (Member.clean line) ∧ ∃ v, (parse line).result = .ok v) := by
  have hwords : ∀ word ∈ wordsOf line, word ≠ [] := fun word hw => (Text.mem_tokens hw).1
  rw [parse, head]
  rcases TypeName.ofWords_cases hwords with ⟨hd, ht⟩ | ⟨hd, hm, ht⟩ | ⟨hd, hm, name, ht⟩
  · rw [wordsOf] at ht
    rw [ht]
    exact .inl ⟨hd, rfl⟩
  · rw [wordsOf] at ht
    rw [ht]
    exact .inr (.inl ⟨hd, hm, rfl⟩)
  · rw [wordsOf] at ht
    rw [ht, Member.named_iff]
    cases Member.name? (Member.clean line) with
    | none =>
      refine .inr (.inr (.inl ⟨hd, hm, ?_, rfl⟩))
      rintro ⟨found, he⟩
      cases he
    | some found => exact .inr (.inr (.inr ⟨hd, hm, ⟨found, rfl⟩, _, rfl⟩))

/-- How a line fails to be read, if it does. -/
def failure? : Option DeclError.Kind :=
  match (parse line).result with
  | .ok _ => none
  | .error e => some e.kind

/-- A line is refused for a delegate, whatever else is in it, or else for a missing type, or else
for a missing name. -/
theorem failure?_iff :
    (failure? line = some .unsupportedConstruct ↔ IsDelegate (wordsOf line)) ∧
      (failure? line = some .invalidVariable ↔ ¬ IsDelegate (wordsOf line) ∧
        (IsMissing (wordsOf line) ∨ ¬ Member.Named (Member.clean line))) ∧
      (failure? line = none ↔ ¬ IsDelegate (wordsOf line) ∧
        ¬ (IsMissing (wordsOf line) ∨ ¬ Member.Named (Member.clean line))) ∧
      failure? line ≠ some .invalidEnumeration ∧
      ((parse line).result = .error (.noType (quotation line)) ↔
        ¬ IsDelegate (wordsOf line) ∧ IsMissing (wordsOf line)) ∧
      ((parse line).result = .error (.noName (quotation line)) ↔
        ¬ IsDelegate (wordsOf line) ∧ ¬ IsMissing (wordsOf line) ∧
          ¬ Member.Named (Member.clean line)) := by
  rw [failure?]
  rcases parse_cases line with ⟨hd, hr⟩ | ⟨hd, hm, hr⟩ | ⟨hd, hm, hn, hr⟩ | ⟨hd, hm, hn, v, hr⟩
  · simp [hr, hd, DeclError.kind]
  · simp [hr, hd, hm, DeclError.kind]
  · simp [hr, hd, hm, hn, DeclError.kind]
  · simp [hr, hd, hm, hn]

/-- An array of delegates without a name. -/
example :
    failure? "\tTArray<struct FScriptDelegate>;   // 0x0040" = some .unsupportedConstruct := by
  decide +kernel

end Variable

end UnrealDecl
