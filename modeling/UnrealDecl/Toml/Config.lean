import UnrealDecl.Config
import UnrealDecl.Toml.Document

namespace UnrealDecl

open Toml (Value Entries)

def Toml.Value.strings? : Value → Option (List Text)
  | array items => items.mapM fun
    | string text => some text
    | _ => none
  | _ => none

def Toml.Value.string? : Value → Option Text
  | string text => some text
  | _ => none

def stringsOrNone (value : Option Value) : Option (List Text) :=
  match value with
  | some value => value.strings?
  | none => some []

/-- The skip list that a value stands for: a table, or its two lists in order. A date stands for a
table without entries. -/
def SkipList.ofToml? : Value → Option SkipList
  | .table _ entries => do
    return ⟨← stringsOrNone (Entries.get? entries "classes"),
      ← stringsOrNone (Entries.get? entries "variables")⟩
  | .array items => do return ⟨← stringsOrNone items[0]?, ← stringsOrNone items[1]?⟩
  | .dateTime _ => some {}
  | _ => none

namespace Config

def ofParts? (inputs output skip : Option Value) : Option Config := do
  let skip ← match skip with
    | some value => SkipList.ofToml? value
    | none => some {}
  return ⟨← (← inputs).strings?, ← (← output).string?, skip⟩

/-- The configuration that a value stands for: a table, or its parts in order. -/
def ofToml? : Value → Option Config
  | .table _ entries =>
    ofParts? (Entries.get? entries "input") (Entries.get? entries "output")
      (Entries.get? entries "skip")
  | .array items => ofParts? items[0]? items[1]? items[2]?
  | _ => none

/-- The configuration in a document, under the key `convert`. -/
def parse? (text : Text) : Option Config := do
  ofToml? (← Entries.get? (← Toml.parse? text) "convert")

end Config

instance : ConfigFormat :=
  ⟨Config.parse?⟩

end UnrealDecl
