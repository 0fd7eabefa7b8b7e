import UnrealDecl.Conversion.Event
import UnrealDecl.Flag.Property

namespace UnrealDecl

/-- How many flag tokens of unknown effect were reported, be they flags of the engine or not. -/
structure TokenTally where
  engine : Nat := 0
  foreign : Nat := 0
deriving DecidableEq, Repr

namespace TokenTally

def event (token : Text) : Event :=
  match PropertyFlag.bit? token with
  | some bit => if PropertyFlag.isParameter bit then .parameterFlag token else .plainFlag token bit
  | none => .foreignToken token

def push (t : TokenTally) (token : Text) : TokenTally :=
  match PropertyFlag.bit? token with
  | some _ => { t with engine := t.engine + 1 }
  | none => { t with foreign := t.foreign + 1 }

def pushAll (t : TokenTally) (tokens : List Text) : TokenTally :=
  tokens.foldl push t

def total (t : TokenTally) : Nat :=
  t.engine + t.foreign

@[simp] theorem total_push (t : TokenTally) (token : Text) :
    (t.push token).total = t.total + 1 := by
  unfold push total
  split <;> dsimp only <;> omega

@[simp] theorem total_pushAll (t : TokenTally) (tokens : List Text) :
    (t.pushAll tokens).total = t.total + tokens.length := by
  induction tokens generalizing t with
  | nil => rfl
  | cons token tokens ih =>
    rw [show t.pushAll (token :: tokens) = (t.push token).pushAll tokens from rfl, ih, total_push,
      List.length_cons]
    omega

end TokenTally

end UnrealDecl
