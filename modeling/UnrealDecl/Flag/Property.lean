import UnrealDecl.Text.Basic

namespace UnrealDecl

/-- A property flag of the engine, as headers spell it, with its bit. -/
structure PropertyFlag where
  name : Text
  bit : UInt64
deriving DecidableEq

namespace PropertyFlag

/-- Every spelling a header may print; two bits have two spellings. -/
def all : List PropertyFlag :=
  [⟨"CPF_Edit", 0x1⟩, ⟨"CPF_Const", 0x2⟩, ⟨"CPF_Input", 0x4⟩, ⟨"CPF_ExportObject", 0x8⟩,
   ⟨"CPF_Export", 0x8⟩, ⟨"CPF_OptionalParm", 0x10⟩, ⟨"CPF_Net", 0x20⟩,
   ⟨"CPF_EditFixedSize", 0x40⟩, ⟨"CPF_EditConstArray", 0x40⟩, ⟨"CPF_Parm", 0x80⟩,
   ⟨"CPF_OutParm", 0x100⟩, ⟨"CPF_SkipParm", 0x200⟩, ⟨"CPF_ReturnParm", 0x400⟩,
   ⟨"CPF_CoerceParm", 0x800⟩, ⟨"CPF_Native", 0x1000⟩, ⟨"CPF_Transient", 0x2000⟩,
   ⟨"CPF_Config", 0x4000⟩, ⟨"CPF_Localized", 0x8000⟩, ⟨"CPF_EditConst", 0x20000⟩,
   ⟨"CPF_GlobalConfig", 0x40000⟩, ⟨"CPF_Component", 0x80000⟩, ⟨"CPF_AlwaysInit", 0x100000⟩,
   ⟨"CPF_DuplicateTransient", 0x200000⟩, ⟨"CPF_NeedCtorLink", 0x400000⟩,
   ⟨"CPF_NoExport", 0x800000⟩, ⟨"CPF_NoImport", 0x1000000⟩, ⟨"CPF_NoClear", 0x2000000⟩,
   ⟨"CPF_EditInline", 0x4000000⟩, ⟨"CPF_EditInlineNotify", 0x8000000⟩,
   ⟨"CPF_EditInlineUse", 0x10000000⟩, ⟨"CPF_Deprecated", 0x20000000⟩,
   ⟨"CPF_DataBinding", 0x40000000⟩, ⟨"CPF_SerializeText", 0x80000000⟩,
   ⟨"CPF_RepNotify", 0x100000000⟩, ⟨"CPF_Interp", 0x200000000⟩,
   ⟨"CPF_NonTransactional", 0x400000000⟩, ⟨"CPF_EditorOnly", 0x800000000⟩,
   ⟨"CPF_NotForConsole", 0x1000000000⟩, ⟨"CPF_RepRetry", 0x2000000000⟩,
   ⟨"CPF_PrivateWrite", 0x4000000000⟩, ⟨"CPF_ProtectedWrite", 0x8000000000⟩,
   ⟨"CPF_ArchetypeProperty", 0x10000000000⟩, ⟨"CPF_EditHide", 0x20000000000⟩,
   ⟨"CPF_EditTextBox", 0x40000000000⟩, ⟨"CPF_CrossLevelPassive", 0x100000000000⟩,
   ⟨"CPF_CrossLevelActive", 0x200000000000⟩]

/-- The union of the bits that only parameters of functions carry. -/
def parameterMask : UInt64 := 0xF90

/-- The bit of a spelling, whose case counts. -/
def bit? (token : Text) : Option UInt64 :=
  (all.find? fun flag => flag.name == token).map bit

def isParameter (bit : UInt64) : Bool :=
  bit &&& parameterMask != 0

end PropertyFlag

end UnrealDecl
