import UnrealDecl.Text.Basic

namespace UnrealDecl.Text

/-- Drops one carriage return at the end of a line whose characters are given backwards. -/
def closeLine : Text → Text
  | '\r' :: line => line.reverse
  | line => line.reverse

/-- The lines of a text whose first line already has the characters of `line`, backwards. -/
def linesFrom (line : Text) : Text → List Text
  | [] => if line.isEmpty then [] else [line.reverse]
  | c :: rest =>
    if c = '\n' then closeLine line :: linesFrom [] rest else linesFrom (c :: line) rest

/-- The lines of a text, each ended by a line feed with perhaps one carriage return before it. -/
def lines (text : Text) : List Text :=
  linesFrom [] text

def unlines (ls : List Text) : Text :=
  ls.flatMap fun line => line ++ ['\n']

@[simp] theorem unlines_nil : unlines [] = [] := rfl

@[simp] theorem unlines_cons (line : Text) (ls : List Text) :
    unlines (line :: ls) = line ++ '\n' :: unlines ls := by
  simp [unlines]

theorem linesFrom_append {text : Text} (h : '\n' ∉ text) (acc : Text) (rest : Text) :
    linesFrom acc (text ++ '\n' :: rest) = closeLine (text.reverse ++ acc) :: lines rest := by
  induction text generalizing acc with
  | nil => simp [linesFrom, lines]
  | cons c text ih =>
    have hc : c ≠ '\n' := fun e => h (by simp [e])
    have ht : '\n' ∉ text := fun m => h (by simp [m])
    simp [linesFrom, hc, ih ht]

end UnrealDecl.Text
