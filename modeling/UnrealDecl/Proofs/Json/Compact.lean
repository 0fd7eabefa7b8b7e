import UnrealDecl.Json.Value
import UnrealDecl.Proofs.Text.Words

namespace UnrealDecl.Json

@[elab_as_elim]
theorem induction {motive : Json → Prop} (text : ∀ value, motive (.text value))
    (array : ∀ items, (∀ item ∈ items, motive item) → motive (.array items))
    (object : ∀ fields, (∀ f ∈ fields, motive f.2) → motive (.object fields)) (value : Json) :
    motive value :=
  @Json.rec motive (fun items => ∀ item ∈ items, motive item)
    (fun fields => ∀ f ∈ fields, motive f.2) (fun f => motive f.2) text array object
    (List.forall_mem_nil _) (fun _ _ hitem hitems => List.forall_mem_cons.2 ⟨hitem, hitems⟩)
    (List.forall_mem_nil _) (fun _ _ hfield hfields => List.forall_mem_cons.2 ⟨hfield, hfields⟩)
    (fun _ _ hvalue => hvalue) value

/-- The characters that do not stand for themselves between quotes. -/
def escaped : Text :=
  '"' :: '\\' :: (List.range 0x20).map Char.ofNat

theorem mem_escaped_of_lt {c : Char} (h : c.toNat < 0x20) : c ∈ escaped := by
  have hmem : Char.ofNat c.toNat ∈ (List.range 0x20).map Char.ofNat :=
    List.mem_map_of_mem (List.mem_range.2 h)
  rw [Char.ofNat_toNat] at hmem
  exact .tail _ (.tail _ hmem)

theorem escape_cases (c : Char) :
    c ∈ escaped ∧ (∃ rest, escape c = '\\' :: rest) ∨ c ∉ escaped ∧ escape c = [c] := by
  by_cases hc : c ∈ escaped
  · have hstart : ∀ d ∈ escaped, (escape d).head? = some '\\' := by decide +kernel
    obtain ⟨rest, hrest⟩ := List.head?_eq_some_iff.1 (hstart c hc)
    exact .inl ⟨hc, rest, hrest⟩
  · have hlow : ¬ c.toNat < 0x20 := fun hlt => hc (mem_escaped_of_lt hlt)
    have hquote : c ≠ '"' := by
      rintro rfl
      exact hc (.head _)
    have hslash : c ≠ '\\' := by
      rintro rfl
      exact hc (.tail _ (.head _))
    refine .inr ⟨hc, ?_⟩
    rw [escape, if_neg hquote, if_neg hslash, if_neg (by omega), if_neg (by omega),
      if_neg (by omega), if_neg (by omega), if_neg (by omega), if_neg hlow]

theorem eq_of_escape_le {c d : Char} (hc : c ∈ escaped) (hd : d ∈ escaped)
    (h : escape c <+: escape d) : c = d := by
  have hall : ∀ c ∈ escaped, ∀ d ∈ escaped, escape c <+: escape d → c = d := by decide +kernel
  exact hall c hc d hd h

theorem escape_append_inj {c d : Char} {s t : Text} (h : escape c ++ s = escape d ++ t) :
    c = d ∧ s = t := by
  have hslash : '\\' ∈ escaped := .tail _ (.head _)
  have hsame : c = d := by
    rcases escape_cases c with ⟨hc, left, hleft⟩ | ⟨hc, hleft⟩
    · rcases escape_cases d with ⟨hd, -⟩ | ⟨hd, hright⟩
      · have hcs : escape c <+: escape d ++ t := ⟨s, h⟩
        rcases List.prefix_or_prefix_of_prefix hcs (List.prefix_append _ t) with hle | hle
        · exact eq_of_escape_le hc hd hle
        · exact (eq_of_escape_le hd hc hle).symm
      · rw [hleft, hright] at h
        exact absurd ((List.cons.inj h).1 ▸ hslash) hd
    · rcases escape_cases d with ⟨-, right, hright⟩ | ⟨-, hright⟩
      · rw [hleft, hright] at h
        exact absurd ((List.cons.inj h).1 ▸ hslash) hc
      · rw [hleft, hright] at h
        exact (List.cons.inj h).1
  subst hsame
  exact ⟨rfl, List.append_cancel_left h⟩

theorem escape_append_ne_quote (c : Char) (s t : Text) : escape c ++ s ≠ '"' :: t := by
  intro h
  rcases escape_cases c with ⟨-, rest, hrest⟩ | ⟨hc, hself⟩
  · rw [hrest] at h
    exact absurd (List.cons.inj h).1 (by decide)
  · rw [hself] at h
    exact hc ((List.cons.inj h).1 ▸ .head _)

theorem quote_append (text rest : Text) :
    quote text ++ rest = '"' :: (text.flatMap escape ++ '"' :: rest) := by
  rw [quote, List.append_assoc, List.append_assoc]
  rfl

theorem quote_append_inj {text other s t : Text} (h : quote text ++ s = quote other ++ t) :
    text = other ∧ s = t := by
  rw [quote_append, quote_append, List.cons_inj_right] at h
  induction text generalizing other with
  | nil =>
    cases other with
    | nil => exact ⟨rfl, (List.cons.inj h).2⟩
    | cons d other =>
      rw [List.flatMap_cons, List.append_assoc] at h
      exact absurd h.symm (escape_append_ne_quote d _ _)
  | cons c text ih =>
    rw [List.flatMap_cons, List.append_assoc] at h
    cases other with
    | nil => exact absurd h (escape_append_ne_quote c _ _)
    | cons d other =>
      rw [List.flatMap_cons, List.append_assoc] at h
      obtain ⟨rfl, hrest⟩ := escape_append_inj h
      obtain ⟨rfl, rfl⟩ := ih hrest
      exact ⟨rfl, rfl⟩

section Series

variable {α : Type} {f : α → Text} {stop : Char} {xs ys : List α} {s t : Text}

theorem flatMap_append_inj (hstop : stop ≠ ',')
    (hf : ∀ x ∈ xs, ∀ {y s t}, f x ++ s = f y ++ t → x = y ∧ s = t)
    (h : (xs.flatMap fun x => ',' :: f x) ++ stop :: s =
      (ys.flatMap fun y => ',' :: f y) ++ stop :: t) : xs = ys ∧ s = t := by
  induction xs generalizing ys with
  | nil =>
    cases ys with
    | nil => exact ⟨rfl, (List.cons.inj h).2⟩
    | cons y ys => exact absurd (List.cons.inj h).1 hstop
  | cons x xs ih =>
    cases ys with
    | nil => exact absurd (List.cons.inj h).1.symm hstop
    | cons y ys =>
      rw [List.flatMap_cons, List.flatMap_cons, List.append_assoc, List.append_assoc] at h
      obtain ⟨rfl, hrest⟩ := hf x (.head _) (List.cons.inj h).2
      obtain ⟨rfl, rfl⟩ := ih (fun z hz => hf z (.tail _ hz)) hrest
      exact ⟨rfl, rfl⟩

/-- A series with commas tells its members, if each of them tells where it ends and none starts like
the end of the series. -/
theorem join_append_inj (hstop : stop ≠ ',') (hstart : ∀ x s t, f x ++ s ≠ stop :: t)
    (hf : ∀ x ∈ xs, ∀ {y s t}, f x ++ s = f y ++ t → x = y ∧ s = t)
    (h : Text.join "," (xs.map f) ++ stop :: s = Text.join "," (ys.map f) ++ stop :: t) :
    xs = ys ∧ s = t := by
  have hjoin : ∀ x xs, Text.join "," ((x :: xs).map f) = f x ++ xs.flatMap fun y => ',' :: f y := by
    intro x xs
    rw [List.map_cons, Text.join_cons, List.flatMap_map]
    rfl
  cases xs with
  | nil =>
    cases ys with
    | nil => exact ⟨rfl, (List.cons.inj h).2⟩
    | cons y ys =>
      rw [hjoin, List.append_assoc] at h
      exact absurd h.symm (hstart y _ _)
  | cons x xs =>
    rw [hjoin, List.append_assoc] at h
    cases ys with
    | nil => exact absurd h (hstart x _ _)
    | cons y ys =>
      rw [hjoin, List.append_assoc] at h
      obtain ⟨rfl, hrest⟩ := hf x (.head _) h
      obtain ⟨rfl, rfl⟩ := flatMap_append_inj hstop (fun z hz => hf z (.tail _ hz)) hrest
      exact ⟨rfl, rfl⟩

end Series

theorem compactItems_eq_join (items : List Json) :
    compactItems items = Text.join "," (items.map compact) := by
  induction items with
  | nil => rfl
  | cons item items ih =>
    cases items with
    | nil => rfl
    | cons next items =>
      rw [compactItems, ih]
      · rfl
      · simp

def compactField (f : Text × Json) : Text :=
  quote f.1 ++ ":" ++ compact f.2

theorem compactFields_eq_join (fields : List (Text × Json)) :
    compactFields fields = Text.join "," (fields.map compactField) := by
  induction fields with
  | nil => rfl
  | cons f fields ih =>
    cases fields with
    | nil => rfl
    | cons next fields =>
      rw [compactFields, ih]
      · rfl
      · simp

theorem compact_array_append (items : List Json) (s : Text) :
    compact (.array items) ++ s = '[' :: (Text.join "," (items.map compact) ++ ']' :: s) := by
  rw [compact, compactItems_eq_join, List.append_assoc, List.append_assoc]
  rfl

theorem compact_object_append (fields : List (Text × Json)) (s : Text) :
    compact (.object fields) ++ s =
      '\x7b' :: (Text.join "," (fields.map compactField) ++ '\x7d' :: s) := by
  rw [compact, compactFields_eq_join, List.append_assoc, List.append_assoc]
  rfl

theorem compact_append_ne (value : Json) (s t : Text) : compact value ++ s ≠ ']' :: t := by
  intro h
  cases value with
  | text value => exact absurd (List.cons.inj h).1 (by decide)
  | array items => exact absurd (List.cons.inj h).1 (by decide)
  | object fields => exact absurd (List.cons.inj h).1 (by decide)

theorem compactField_append_ne (f : Text × Json) (s t : Text) :
    compactField f ++ s ≠ '\x7d' :: t := by
  intro h
  exact absurd (List.cons.inj h).1 (by decide)

theorem compactField_append (f : Text × Json) (s : Text) :
    compactField f ++ s = quote f.1 ++ (':' :: (compact f.2 ++ s)) := by
  rw [compactField, List.append_assoc, List.append_assoc]
  rfl

/-- A value written without any space tells itself, and where it ends. -/
theorem compact_append_inj {value other : Json} {s t : Text}
    (h : compact value ++ s = compact other ++ t) : value = other ∧ s = t := by
  induction value using Json.induction generalizing other s t with
  | text value =>
    cases other with
    | text other =>
      obtain ⟨rfl, rfl⟩ := quote_append_inj h
      exact ⟨rfl, rfl⟩
    | array items => exact absurd (List.cons.inj h).1 (by decide)
    | object fields => exact absurd (List.cons.inj h).1 (by decide)
  | array items ih =>
    cases other with
    | text other => exact absurd (List.cons.inj h).1 (by decide)
    | array others =>
      rw [compact_array_append, compact_array_append, List.cons_inj_right] at h
      obtain ⟨rfl, rfl⟩ := join_append_inj (by decide) compact_append_ne ih h
      exact ⟨rfl, rfl⟩
    | object fields => exact absurd (List.cons.inj h).1 (by decide)
  | object fields ih =>
    cases other with
    | text other => exact absurd (List.cons.inj h).1 (by decide)
    | array items => exact absurd (List.cons.inj h).1 (by decide)
    | object others =>
      have hfield : ∀ f ∈ fields, ∀ {g s t}, compactField f ++ s = compactField g ++ t →
          f = g ∧ s = t := by
        intro f hf g s t h
        rw [compactField_append, compactField_append] at h
        obtain ⟨hname, hrest⟩ := quote_append_inj h
        obtain ⟨hvalue, rfl⟩ := ih f hf (List.cons.inj hrest).2
        exact ⟨Prod.ext hname hvalue, rfl⟩
      rw [compact_object_append, compact_object_append, List.cons_inj_right] at h
      obtain ⟨rfl, rfl⟩ := join_append_inj (by decide) compactField_append_ne hfield h
      exact ⟨rfl, rfl⟩

theorem compact_inj {value other : Json} : compact value = compact other ↔ value = other := by
  constructor
  · intro h
    have happend : compact value ++ [] = compact other ++ [] := congrArg (· ++ []) h
    exact (compact_append_inj happend).1
  · rintro rfl
    rfl

end UnrealDecl.Json
