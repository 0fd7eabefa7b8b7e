import Mathlib.Data.List.Induction
import Mathlib.Data.List.Infix
import Mathlib.Tactic.ByContra
import UnrealDecl.Proofs.Member.Clean

namespace UnrealDecl.Text

/-- Text that is gone once words are taken out of it, one occurrence after the other. -/
inductive Vanishes (words : List Text) : Text → Prop
  | nil : Vanishes words []
  | insert {word a b : Text} : word ∈ words → Vanishes words (a ++ b) →
      Vanishes words (a ++ word ++ b)

namespace Vanishes

variable {words : List Text} {a b gap : Text}

theorem splice (hg : Vanishes words gap) (h : Vanishes words (a ++ b)) :
    Vanishes words (a ++ gap ++ b) := by
  induction hg with
  | nil => rwa [List.append_nil]
  | @insert word left right hw _ ih =>
    have hinner : Vanishes words ((a ++ left) ++ (right ++ b)) := by
      simpa only [List.append_assoc] using ih
    simpa only [List.append_assoc] using insert hw hinner

theorem append (ha : Vanishes words a) (hb : Vanishes words b) : Vanishes words (a ++ b) := by
  apply splice (a := []) ha
  exact hb

theorem of_mem {word : Text} (h : word ∈ words) : Vanishes words word := by
  have hword := insert (a := []) (b := []) h nil
  rwa [List.append_nil] at hword

theorem mono {more : List Text} (hsub : words ⊆ more) (h : Vanishes words a) :
    Vanishes more a := by
  induction h with
  | nil => exact nil
  | insert hw _ ih => exact insert (hsub hw) ih

end Vanishes

/-- A character that is left of a text, and what was deleted in front of it. -/
structure Kept where
  gap : Text
  char : Char

/-- What is left of a text, and what was deleted; `trail` stood behind all that is left. -/
structure Residue where
  kept : List Kept
  trail : Text

namespace Residue

def text (r : Residue) : Text :=
  r.kept.map Kept.char

def source (r : Residue) : Text :=
  (r.kept.flatMap fun k => k.gap ++ [k.char]) ++ r.trail

def gaps (r : Residue) : List Text :=
  r.trail :: r.kept.map Kept.gap

/-- Wherever one of the words is left, something was deleted between two of its characters. -/
def Broken (words : List Text) (r : Residue) : Prop :=
  ∀ run, run <:+: r.kept → run.map Kept.char ∈ words → ∃ k ∈ run.tail, k.gap ≠ []

def whole (text : Text) : Residue :=
  ⟨text.map fun c => ⟨[], c⟩, []⟩

def push (k : Kept) (r : Residue) : Residue :=
  ⟨k :: r.kept, r.trail⟩

theorem source_push (k : Kept) (r : Residue) :
    (r.push k).source = k.gap ++ k.char :: r.source := by
  simp [source, push]

theorem source_whole (text : Text) : (whole text).source = text := by
  induction text with
  | nil => rfl
  | cons c text ih =>
    have hcons : whole (c :: text) = (whole text).push ⟨[], c⟩ := rfl
    rw [hcons, source_push, ih]
    rfl

theorem text_whole (text : Text) : (whole text).text = text := by
  simp [Residue.text, whole, Function.comp_def]

theorem eq_nil_of_mem_gaps {text gap : Text} (h : gap ∈ (whole text).gaps) : gap = [] := by
  rcases List.mem_cons.1 h with rfl | h
  · rfl
  · obtain ⟨k, hk, rfl⟩ := List.mem_map.1 h
    obtain ⟨c, -, rfl⟩ := List.mem_map.1 hk
    rfl

/-- Removes a word as `removeFrom` does, and keeps what it deletes; `gap` was deleted right
before. -/
def sweepFrom (word trail : Text) : Nat → Text → List Kept → Residue
  | _, gap, [] => ⟨[], gap ++ trail⟩
  | skip + 1, gap, k :: ks => sweepFrom word trail skip (gap ++ k.gap ++ [k.char]) ks
  | 0, gap, k :: ks =>
    if word.isPrefixOf ((k :: ks).map Kept.char) then
      sweepFrom word trail (word.length - 1) (gap ++ k.gap ++ [k.char]) ks
    else (sweepFrom word trail 0 [] ks).push ⟨gap ++ k.gap, k.char⟩

def sweep (word : Text) (r : Residue) : Residue :=
  sweepFrom word r.trail 0 [] r.kept

section Sweep

variable (word trail : Text)

theorem source_sweepFrom (skip : Nat) (gap : Text) (ks : List Kept) :
    (sweepFrom word trail skip gap ks).source = gap ++ (Residue.mk ks trail).source := by
  induction ks generalizing skip gap with
  | nil => cases skip <;> rfl
  | cons k ks ih =>
    have hcons : (Residue.mk (k :: ks) trail).source =
        k.gap ++ k.char :: (Residue.mk ks trail).source :=
      source_push k ⟨ks, trail⟩
    cases skip with
    | succ skip => simp [sweepFrom, ih, hcons]
    | zero =>
      rw [sweepFrom]
      split
      · simp [ih, hcons]
      · simp [source_push, ih, hcons]

theorem text_sweepFrom (skip : Nat) (gap : Text) (ks : List Kept) :
    (sweepFrom word trail skip gap ks).text = removeFrom word skip (ks.map Kept.char) := by
  induction ks generalizing skip gap with
  | nil => cases skip <;> rfl
  | cons k ks ih =>
    cases skip with
    | succ skip => exact ih skip _
    | zero =>
      rw [sweepFrom, List.map_cons, removeFrom]
      split
      · exact ih _ _
      · exact congrArg (k.char :: ·) (ih 0 [])

variable {word trail}

theorem vanishes_sweepFrom {words : List Text} (hword : word ∈ words) (hne : word ≠ [])
    (htrail : Vanishes words trail) {skip : Nat} {gap : Text} {ks : List Kept}
    (hks : ∀ k ∈ ks, Vanishes words k.gap) (hskip : skip ≤ ks.length)
    (hgap : Vanishes words (gap ++ (ks.map Kept.char).take skip)) :
    ∀ g ∈ (sweepFrom word trail skip gap ks).gaps, Vanishes words g := by
  induction ks generalizing skip gap with
  | nil =>
    obtain rfl := Nat.le_zero.1 hskip
    intro g hg
    obtain rfl := List.mem_singleton.1 hg
    rw [List.take_zero, List.append_nil] at hgap
    exact hgap.append htrail
  | cons k ks ih =>
    have hk := hks k (.head _)
    have hrest : ∀ k ∈ ks, Vanishes words k.gap := fun k hm => hks k (.tail _ hm)
    cases skip with
    | succ skip =>
      apply ih hrest (Nat.le_of_succ_le_succ hskip)
      simpa using hk.splice hgap
    | zero =>
      rw [List.take_zero, List.append_nil] at hgap
      have hfront := hgap.append hk
      rw [sweepFrom]
      split
      · rename_i hp
        have hprefix := List.isPrefixOf_iff_prefix.1 hp
        have hlength := hprefix.length_le
        rw [List.length_map, List.length_cons] at hlength
        apply ih hrest (by omega)
        obtain ⟨c, front, rfl⟩ := List.exists_cons_of_ne_nil hne
        obtain ⟨rfl, hfollows⟩ := List.cons_prefix_cons.1 hprefix
        have htake : (ks.map Kept.char).take front.length = front :=
          (List.prefix_iff_eq_take.1 hfollows).symm
        have hall := hfront.append (.of_mem hword)
        rw [List.length_cons, Nat.add_sub_cancel, htake]
        simpa using hall
      · intro g hg
        have hothers : ∀ g ∈ (sweepFrom word trail 0 [] ks).gaps, Vanishes words g :=
          ih hrest (Nat.zero_le _) .nil
        rcases List.mem_cons.1 hg with rfl | hg
        · exact hothers _ (.head _)
        · rcases List.mem_cons.1 hg with rfl | hg
          · exact hfront
          · exact hothers g (.tail _ hg)

theorem prefix_of_prefix_sweepFrom {skip : Nat} {gap : Text} {ks run : List Kept}
    (h : run <+: (sweepFrom word trail skip gap ks).kept) (hrun : ∀ k ∈ run, k.gap = []) :
    run <+: ks ∧ (run ≠ [] → gap = []) := by
  induction ks generalizing skip gap run with
  | nil =>
    have hnil : run = [] := by cases skip <;> exact List.prefix_nil.1 h
    rw [hnil]
    exact ⟨List.nil_prefix, fun hne => absurd rfl hne⟩
  | cons k ks ih =>
    have hdeleted : ∀ {skip : Nat},
        run <+: (sweepFrom word trail skip (gap ++ k.gap ++ [k.char]) ks).kept → run = [] := by
      intro skip h
      by_contra hne
      have hgap := (ih h hrun).2 hne
      simp at hgap
    have hnothing : run = [] → run <+: k :: ks ∧ (run ≠ [] → gap = []) := by
      rintro rfl
      exact ⟨List.nil_prefix, fun hne => absurd rfl hne⟩
    cases skip with
    | succ skip => exact hnothing (hdeleted h)
    | zero =>
      rw [sweepFrom] at h
      split at h
      · exact hnothing (hdeleted h)
      · cases run with
        | nil => exact hnothing rfl
        | cons first run =>
          obtain ⟨rfl, hrest⟩ := List.cons_prefix_cons.1 h
          obtain ⟨hgap, -⟩ := List.append_eq_nil_iff.1 (hrun _ (.head _))
          refine ⟨?_, fun _ => hgap⟩
          rw [hgap, List.nil_append, List.cons_prefix_cons]
          exact ⟨rfl, (ih hrest fun k hm => hrun k (.tail _ hm)).1⟩

theorem exists_of_infix_sweepFrom {skip : Nat} {gap : Text} {ks run : List Kept} {first : Kept}
    (h : first :: run <:+: (sweepFrom word trail skip gap ks).kept)
    (hrun : ∀ k ∈ run, k.gap = []) :
    ∃ k, k.char = first.char ∧ k :: run <:+: ks ∧ ¬ word <+: (k :: run).map Kept.char := by
  induction ks generalizing skip gap with
  | nil => cases skip <;> exact absurd (List.infix_nil.1 h) (List.cons_ne_nil _ _)
  | cons k ks ih =>
    have hdeeper : ∀ {skip : Nat} {gap : Text},
        first :: run <:+: (sweepFrom word trail skip gap ks).kept →
          ∃ d, d.char = first.char ∧ d :: run <:+: k :: ks ∧
            ¬ word <+: (d :: run).map Kept.char := by
      intro skip gap h
      obtain ⟨d, hchar, hinfix, hno⟩ := ih h
      exact ⟨d, hchar, hinfix.trans (List.suffix_cons k ks).isInfix, hno⟩
    cases skip with
    | succ skip => exact hdeeper h
    | zero =>
      rw [sweepFrom] at h
      split at h
      · exact hdeeper h
      · rename_i hp
        rcases List.infix_cons_iff.1 h with h | h
        · obtain ⟨rfl, hrest⟩ := List.cons_prefix_cons.1 h
          have hks : k :: run <+: k :: ks :=
            List.cons_prefix_cons.2 ⟨rfl, (prefix_of_prefix_sweepFrom hrest hrun).1⟩
          refine ⟨k, rfl, hks.isInfix, fun hword => hp ?_⟩
          exact List.isPrefixOf_iff_prefix.2 (hword.trans (hks.map Kept.char))
        · exact hdeeper h

end Sweep

theorem broken_sweep {word : Text} {words : List Text} (hne : ∀ w ∈ word :: words, w ≠ [])
    {r : Residue} (h : r.Broken words) : (r.sweep word).Broken (word :: words) := by
  intro run hrun hmem
  by_contra hno
  have hgaps : ∀ k ∈ run.tail, k.gap = [] := by
    intro k hk
    by_contra hgap
    exact hno ⟨k, hk, hgap⟩
  cases run with
  | nil => exact hne _ hmem rfl
  | cons first run =>
    obtain ⟨k, hchar, hinfix, hword⟩ := exists_of_infix_sweepFrom hrun hgaps
    have hchars : (k :: run).map Kept.char = (first :: run).map Kept.char := by
      rw [List.map_cons, List.map_cons, hchar]
    rcases List.mem_cons.1 hmem with he | hm
    · exact hword (by rw [hchars, he])
    · obtain ⟨d, hd, hgap⟩ := h _ hinfix (hchars ▸ hm)
      exact hgap (hgaps d hd)

/-- What the removal of words leaves is the text with stretches deleted that consist of the words.
No word is left as it stood. -/
theorem exists_of_removeAll {words : List Text} (hne : ∀ word ∈ words, word ≠ []) (text : Text) :
    ∃ r : Residue, r.source = text ∧ r.text = removeAll words text ∧
      (∀ gap ∈ r.gaps, Vanishes words gap) ∧ r.Broken words := by
  induction words using List.reverseRecOn with
  | nil =>
    refine ⟨whole text, source_whole text, text_whole text, ?_, ?_⟩
    · intro gap hgap
      rw [eq_nil_of_mem_gaps hgap]
      exact .nil
    · intro run _ hmem
      exact absurd hmem List.not_mem_nil
  | append_singleton words word ih =>
    obtain ⟨r, hsource, htext, hgaps, hbroken⟩ := ih fun w hw => hne w (List.mem_append_left _ hw)
    have hword : word ≠ [] := hne word (by simp)
    have hsub : words ⊆ words ++ [word] := fun w hw => List.mem_append_left _ hw
    refine ⟨r.sweep word, ?_, ?_, ?_, ?_⟩
    · rw [sweep, source_sweepFrom, List.nil_append]
      exact hsource
    · have hfold : removeAll (words ++ [word]) text = remove word (removeAll words text) := by
        simp [removeAll]
      rw [sweep, text_sweepFrom, hfold, ← htext, remove, if_neg (by simpa using hword)]
      rfl
    · have hall : ∀ gap ∈ r.gaps, Vanishes (words ++ [word]) gap :=
        fun gap hg => (hgaps gap hg).mono hsub
      apply vanishes_sweepFrom (by simp) hword (hall _ (.head _)) _ (Nat.zero_le _) .nil
      intro k hk
      exact hall _ (.tail _ (List.mem_map_of_mem hk))
    · have hmore : ∀ w ∈ word :: words, w ≠ [] := by
        intro w hw
        apply hne
        rcases List.mem_cons.1 hw with rfl | hw
        · simp
        · exact hsub hw
      intro run hrun hmem
      apply broken_sweep hmore hbroken run hrun
      simpa [or_comm] using hmem

end Residue

end UnrealDecl.Text

namespace UnrealDecl.Member

/-- Cleaning deletes stretches that consist of clutter, and leaves no clutter as it stood: what is
left of it is a keyword that has been put together. -/
theorem clutter_put_together (line : Text) :
    (∃ r : Text.Residue, r.source = line ∧ r.text = clean line ∧
      (∀ gap ∈ r.gaps, Text.Vanishes clutter gap) ∧
      ∀ run, run <:+: r.kept → run.map (·.char) ∈ clutter → ∃ k ∈ run.tail, k.gap ≠ []) ∧
    (∀ word ∈ clutter, word.length = 1 → ¬ word <:+: clean line) ∧
    (clean (clean line) = clean line ↔ ∀ word ∈ keywords, ¬ word <:+: clean line) := by
  have hne : ∀ word ∈ clutter, word ≠ [] := by decide
  have hsign : ∀ c ∈ signs, ¬ [c] <:+: clean line := by
    intro c hc hinfix
    exact not_mem_clean hc line ((List.singleton_infix_iff c _).1 hinfix)
  refine ⟨Text.Residue.exists_of_removeAll hne line, ?_, ?_⟩
  · intro word hword hlength
    rcases mem_clutter_iff.1 hword with hword | ⟨c, hc, rfl⟩
    · have hlong : ∀ word ∈ keywords, word.length ≠ 1 := by decide
      exact absurd hlength (hlong word hword)
    · exact hsign c hc
  · rw [clean_eq_self_iff]
    constructor
    · intro h word hword
      exact h word (mem_clutter_iff.2 (.inl hword))
    · intro h word hword
      rcases mem_clutter_iff.1 hword with hword | ⟨c, hc, rfl⟩
      · exact h word hword
      · exact hsign c hc

theorem clutter_put_together_slot :
    let line : Text := "unsigned cl1ass Slot1;"
    ¬ (";" : Text) <:+: clean line ∧ clean (clean line) ≠ clean line := by
  intro line
  obtain ⟨-, hsign, hstays⟩ := clutter_put_together line
  have hclass : ("class" : Text) <:+: clean line := ⟨" ", " Slot", by decide⟩
  exact ⟨hsign ";" (by decide) rfl, fun h => hstays.1 h "class" (by decide) hclass⟩

/-- A keyword is put together where a sign stood in it. -/
theorem class_put_together :
    clean "cl1ass" = "class" ∧ (∃ word ∈ clutter, word <:+: clean "cl1ass") ∧
      clean (clean "cl1ass") ≠ clean "cl1ass" := by
  have hclean : clean "cl1ass" = "class" := by decide
  rw [hclean]
  exact ⟨rfl, ⟨"class", by decide, List.infix_rfl⟩, by decide⟩

end UnrealDecl.Member
