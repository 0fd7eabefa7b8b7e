import UnrealDecl.Flag.Modifier

namespace UnrealDecl

/-- What a flag does to a declaration. -/
inductive FlagEffect
  | modifier (m : Modifier)
  | nothing
deriving DecidableEq, Repr

namespace FlagEffect

/-- The spellings whose effect is known. -/
def table : List (Text × FlagEffect) :=
  [("CPF_Edit", .modifier .edit), ("CPF_Const", .modifier .const),
   ("CPF_EditConst", .modifier .editConst), ("CPF_EditConstArray", .modifier .editConstArray),
   ("CPF_EditInline", .modifier .editInline),
   ("CPF_EditInlineNotify", .modifier .editInlineNotify),
   ("CPF_Localized", .modifier .localized), ("CPF_Export", .modifier .exported),
   ("CPF_ExportObject", .modifier .exported), ("CPF_Transient", .modifier .transient),
   ("CPF_Native", .modifier .native), ("CPF_Net", .modifier .net),
   ("CPF_NoExport", .modifier .noExport), ("CPF_Config", .nothing), ("CPF_Component", .nothing),
   ("CPF_NeedCtorLink", .nothing)]

def of? (token : Text) : Option FlagEffect :=
  table.lookup token

end FlagEffect

/-- The modifiers of a flag list, and its tokens whose effect is not known, with repeats. -/
structure DecodedFlags where
  modifiers : Modifiers
  unknown : List Text

namespace DecodedFlags

def push (d : DecodedFlags) (token : Text) : DecodedFlags :=
  match FlagEffect.of? token with
  | some (.modifier m) => { d with modifiers := d.modifiers.insert m }
  | some .nothing => d
  | none => { d with unknown := d.unknown ++ [token] }

def ofTokens (tokens : List Text) : DecodedFlags :=
  tokens.foldl push ⟨.empty, []⟩

theorem ofTokens_concat (tokens : List Text) (token : Text) :
    ofTokens (tokens ++ [token]) = (ofTokens tokens).push token := by
  simp [ofTokens]

theorem unknown_push (d : DecodedFlags) (t : Text) :
    (d.push t).unknown = d.unknown ++ [t].filter fun t => (FlagEffect.of? t).isNone := by
  unfold push
  split <;> simp [*]

theorem unknown_foldl_push (tokens : List Text) (d : DecodedFlags) :
    (tokens.foldl push d).unknown =
      d.unknown ++ tokens.filter fun token => (FlagEffect.of? token).isNone := by
  induction tokens generalizing d with
  | nil => simp
  | cons t ts ih =>
    rw [List.foldl_cons, ih, unknown_push, List.append_assoc, ← List.filter_append]
    rfl

theorem unknown_ofTokens (tokens : List Text) :
    (ofTokens tokens).unknown = tokens.filter fun token => (FlagEffect.of? token).isNone := by
  rw [ofTokens, unknown_foldl_push, List.nil_append]

end DecodedFlags

end UnrealDecl
