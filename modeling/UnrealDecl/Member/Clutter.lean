import UnrealDecl.Text.Basic

namespace UnrealDecl.Member

/-- What is removed from a member line before it is read: keywords, the width of a bit field and
the signs around it, and the brackets and stars of compound types. -/
def clutter : List Text :=
  ["struct", "class", "unsigned", "1", ";", ":", "<", ">", "*"]

/-- Removes one piece of clutter after the other, wherever it stands. -/
def clean (line : Text) : Text :=
  clutter.foldl (fun text word => Text.remove word text) line

@[simp] theorem clean_nil : clean [] = [] := by
  decide

end UnrealDecl.Member
