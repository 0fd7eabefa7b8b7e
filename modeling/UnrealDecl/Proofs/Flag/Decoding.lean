import Mathlib.Data.List.Induction
import Mathlib.Data.List.Nodup
import UnrealDecl.Flag.Effect

namespace UnrealDecl

def FlagEffect.modifierOf? (token : Text) : Option Modifier :=
  match of? token with
  | some (.modifier m) => some m
  | _ => none

def exportSpellings : List Text :=
  ["CPF_Export", "CPF_ExportObject"]

theorem FlagEffect.modifierOf?_eq_exported_iff {token : Text} :
    modifierOf? token = some .exported ↔ token ∈ exportSpellings := by
  constructor
  · intro h
    have heffect : of? token = some (.modifier .exported) := by
      rw [modifierOf?] at h
      split at h
      · cases h
        assumption
      · cases h
    obtain ⟨front, back, htable, -⟩ := List.lookup_eq_some_iff.1 heffect
    have hentry : (token, FlagEffect.modifier .exported) ∈ table := by
      rw [htable]
      exact List.mem_append_right _ (.head _)
    have hspelled : ∀ entry ∈ table, entry.2 = .modifier .exported → entry.1 ∈ exportSpellings := by
      decide
    exact hspelled _ hentry rfl
  · revert token
    decide

theorem Modifiers.toList_insert_of_append {r s t : Modifiers}
    (h : r.toList = s.toList ++ t.toList.filter (· ∉ s.toList)) (m : Modifier) :
    (r.insert m).toList = s.toList ++ (t.insert m).toList.filter (· ∉ s.toList) := by
  have hmem : m ∈ r.toList ↔ m ∈ s.toList ∨ m ∈ t.toList := by
    rw [h, List.mem_append, List.mem_filter, decide_eq_true_eq]
    tauto
  rw [toList_insert, toList_insert]
  by_cases ht : m ∈ t.toList
  · rw [if_pos (hmem.2 (.inr ht)), if_pos ht, h]
  · rw [if_neg ht, List.filter_append, ← List.append_assoc, ← h]
    by_cases hs : m ∈ s.toList
    · rw [if_pos (hmem.2 (.inl hs)), List.filter_cons_of_neg (by simpa using hs), List.filter_nil,
        List.append_nil]
    · rw [if_neg fun hr => (hmem.1 hr).elim hs ht, List.filter_cons_of_pos (by simpa using hs),
        List.filter_nil]

namespace DecodedFlags

theorem modifiers_push (d : DecodedFlags) (token : Text) :
    (d.push token).modifiers =
      match FlagEffect.modifierOf? token with
      | some m => d.modifiers.insert m
      | none => d.modifiers := by
  rw [push, FlagEffect.modifierOf?]
  cases FlagEffect.of? token with
  | none => rfl
  | some effect => cases effect <;> rfl

theorem eraseDups_concat {α : Type} [DecidableEq α] (l : List α) (a : α) :
    (l ++ [a]).eraseDups = if a ∈ l then l.eraseDups else l.eraseDups ++ [a] := by
  rw [List.eraseDups_append]
  by_cases h : a ∈ l
  · simp [List.removeAll, h]
  · simp [List.removeAll, h, List.eraseDups_cons]

/-- The modifiers are those that the tokens stand for, each where it is met first. -/
theorem toList_ofTokens (tokens : List Text) :
    (ofTokens tokens).modifiers.toList = (tokens.filterMap FlagEffect.modifierOf?).eraseDups := by
  induction tokens using List.reverseRecOn with
  | nil => rfl
  | append_singleton tokens token ih =>
    rw [ofTokens_concat, modifiers_push, List.filterMap_append]
    cases hm : FlagEffect.modifierOf? token with
    | none =>
      rw [List.filterMap_cons_none hm, List.filterMap_nil, List.append_nil]
      exact ih
    | some m =>
      rw [List.filterMap_cons_some hm, List.filterMap_nil, eraseDups_concat]
      dsimp only
      rw [Modifiers.toList_insert, ih]
      by_cases h : m ∈ tokens.filterMap FlagEffect.modifierOf?
      · rw [if_pos (List.mem_eraseDups.2 h), if_pos h]
      · rw [if_neg (mt List.mem_eraseDups.1 h), if_neg h]

theorem mem_ofTokens {tokens : List Text} {m : Modifier} :
    m ∈ (ofTokens tokens).modifiers.toList ↔
      ∃ token ∈ tokens, FlagEffect.modifierOf? token = some m := by
  rw [toList_ofTokens, List.mem_eraseDups, List.mem_filterMap]

theorem toList_ofTokens_append (tokens more : List Text) :
    (ofTokens (tokens ++ more)).modifiers.toList =
      (ofTokens tokens).modifiers.toList ++
        (ofTokens more).modifiers.toList.filter (· ∉ (ofTokens tokens).modifiers.toList) := by
  induction more using List.reverseRecOn with
  | nil => simp [ofTokens]
  | append_singleton more token ih =>
    rw [← List.append_assoc, ofTokens_concat, ofTokens_concat, modifiers_push, modifiers_push]
    cases FlagEffect.modifierOf? token with
    | none => exact ih
    | some m => exact Modifiers.toList_insert_of_append ih m

theorem unknown_ofTokens_append (tokens more : List Text) :
    (ofTokens (tokens ++ more)).unknown = (ofTokens tokens).unknown ++ (ofTokens more).unknown := by
  rw [unknown_ofTokens, unknown_ofTokens, unknown_ofTokens, List.filter_append]

theorem ofTokens_perm {tokens more : List Text} (h : tokens.Perm more) :
    (ofTokens tokens).modifiers.toList.Perm (ofTokens more).modifiers.toList ∧
      (ofTokens tokens).unknown.Perm (ofTokens more).unknown := by
  constructor
  · refine (List.perm_ext_iff_of_nodup (Modifiers.nodup _) (Modifiers.nodup _)).2 ?_
    intro m
    rw [mem_ofTokens, mem_ofTokens]
    exact exists_congr fun token => and_congr_left' h.mem_iff
  · rw [unknown_ofTokens, unknown_ofTokens]
    exact h.filter _

theorem toList_ofTokens_first {front : List Text} {token : Text} {m : Modifier}
    (hfront : ∀ earlier ∈ front, FlagEffect.modifierOf? earlier ≠ some m)
    (htoken : FlagEffect.modifierOf? token = some m) (rest : List Text) :
    (ofTokens (front ++ token :: rest)).modifiers.toList =
      (ofTokens front).modifiers.toList ++ m :: (ofTokens rest).modifiers.toList.filter
        fun n => n ≠ m ∧ n ∉ (ofTokens front).modifiers.toList := by
  have hnew : m ∉ (ofTokens front).modifiers.toList := by
    rw [mem_ofTokens]
    rintro ⟨earlier, hearlier, hm⟩
    exact hfront earlier hearlier hm
  have hone : (ofTokens [token]).modifiers.toList = [m] := by
    rw [toList_ofTokens, List.filterMap_cons_some htoken]
    rfl
  have hrest := toList_ofTokens_append [token] rest
  rw [hone, List.singleton_append, List.singleton_append] at hrest
  rw [toList_ofTokens_append, hrest, List.filter_cons_of_pos (by simpa using hnew),
    List.filter_filter]
  congr 2
  apply List.filter_congr
  intro n _
  simp [Bool.and_comm]

section Telling

variable {σ : Type} (sink : σ → Text → σ)

/-- Reads one more token; if its effect is not known, a sink is told at once. -/
def tell (state : Modifiers × σ) (token : Text) : Modifiers × σ :=
  match FlagEffect.of? token with
  | some (.modifier m) => (state.1.insert m, state.2)
  | some .nothing => state
  | none => (state.1, sink state.2 token)

/-- A sink that is told of each token when it is read ends where one does that is told of all of
them afterwards. -/
theorem foldl_tell (start : σ) (tokens : List Text) :
    tokens.foldl (tell sink) (.empty, start) =
      ((ofTokens tokens).modifiers, (ofTokens tokens).unknown.foldl sink start) := by
  induction tokens using List.reverseRecOn with
  | nil => rfl
  | append_singleton tokens token ih =>
    rw [List.foldl_concat, ih, ofTokens_concat, tell, push]
    cases FlagEffect.of? token with
    | none => simp
    | some effect => cases effect <;> rfl

end Telling

/-- Flags decode into the modifiers that their tokens stand for, each once and where it is met
first, and a sink is told of exactly the other tokens of no known effect, in order and with repeats.
-/
theorem ofTokens_ordered (tokens : List Text) :
    (ofTokens tokens).modifiers.toList.Nodup ∧
    (ofTokens tokens).modifiers.toList =
      (tokens.filterMap FlagEffect.modifierOf?).eraseDups ∧
    (ofTokens tokens).unknown = (tokens.filter fun token => (FlagEffect.of? token).isNone) ∧
    (∀ (σ : Type) (sink : σ → Text → σ) (start : σ),
      tokens.foldl (tell sink) (.empty, start) =
        ((ofTokens tokens).modifiers, (ofTokens tokens).unknown.foldl sink start)) ∧
    (∀ more : List Text,
      (ofTokens (tokens ++ more)).modifiers.toList =
        (ofTokens tokens).modifiers.toList ++
          (ofTokens more).modifiers.toList.filter (· ∉ (ofTokens tokens).modifiers.toList) ∧
      (ofTokens (tokens ++ more)).unknown =
        (ofTokens tokens).unknown ++ (ofTokens more).unknown) ∧
    (∀ more : List Text, tokens.Perm more →
      (ofTokens tokens).modifiers.toList.Perm (ofTokens more).modifiers.toList ∧
        (ofTokens tokens).unknown.Perm (ofTokens more).unknown) ∧
    ∀ (spelling : Text) (rest : List Text), spelling ∈ exportSpellings →
      (∀ token ∈ tokens, token ∉ exportSpellings) →
      (ofTokens (tokens ++ spelling :: rest)).modifiers.toList =
        (ofTokens tokens).modifiers.toList ++
          .exported :: (ofTokens rest).modifiers.toList.filter
            fun m => m ≠ .exported ∧ m ∉ (ofTokens tokens).modifiers.toList := by
  refine ⟨Modifiers.nodup _, toList_ofTokens tokens, unknown_ofTokens tokens, ?_, ?_, ?_, ?_⟩
  · intro σ sink start
    exact foldl_tell sink start tokens
  · intro more
    exact ⟨toList_ofTokens_append tokens more, unknown_ofTokens_append tokens more⟩
  · intro more hperm
    exact ofTokens_perm hperm
  · intro spelling rest hspelling hfront
    refine toList_ofTokens_first ?_ (FlagEffect.modifierOf?_eq_exported_iff.2 hspelling) rest
    intro token htoken hexported
    exact hfront token htoken (FlagEffect.modifierOf?_eq_exported_iff.1 hexported)

def editFlags : List Text :=
  ["CPF_Edit", "CPF_Interp", "CPF_Config", "CPF_Const"]

def laterFlags : List Text :=
  ["CPF_Native", "CPF_Export", "CPF_Edit"]

theorem ofTokens_ordered_editFlags :
    editFlags.Perm editFlags.reverse ∧ (∀ token ∈ editFlags, token ∉ exportSpellings) ∧
      (ofTokens editFlags).modifiers.toList.Perm [.const, .edit] ∧
      (ofTokens (editFlags ++ "CPF_ExportObject".toList :: laterFlags)).modifiers.toList =
        [.edit, .const, .exported, .native] := by
  have hperm : editFlags.Perm editFlags.reverse := (List.reverse_perm editFlags).symm
  have hplain : ∀ token ∈ editFlags, token ∉ exportSpellings := by decide
  obtain ⟨-, -, -, -, -, hshuffled, hfirst⟩ := ofTokens_ordered editFlags
  refine ⟨hperm, hplain, (hshuffled _ hperm).1, ?_⟩
  rw [hfirst "CPF_ExportObject" laterFlags (by decide) hplain]
  decide

end DecodedFlags

end UnrealDecl
