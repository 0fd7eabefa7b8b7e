import UnrealDecl.CommandLine.Arguments
import UnrealDecl.Conversion.Run
import UnrealDecl.Declaration.Structured
import UnrealDecl.Toml.Config

namespace UnrealDecl.CommandLine

/-- Why a command failed. -/
inductive Failure
  | input
  | declaration (e : DeclError)
  | run (e : RunError)
deriving DecidableEq

def Failure.message : Failure → Text
  | input => "failed to read stdin: " ++ FileError.notText.message
  | declaration e => e.message
  | run e => e.message

structure Printed where
  out : Text := []
  err : Text := []
deriving DecidableEq

/-- The result of a command, with the events that were told on the way to it. -/
structure Report where
  result : Except Failure Printed
  events : List Event := []

namespace Report

def exitCode (r : Report) : Nat :=
  match r.result with
  | .ok _ => 0
  | .error _ => 1

def out (r : Report) : Text :=
  match r.result with
  | .ok printed => printed.out
  | .error _ => []

def err (r : Report) : Text :=
  match r.result with
  | .ok printed => printed.err
  | .error failure => "Error: " ++ failure.message ++ "\n"

end Report

/-- Converts one declaration and prints it, in UnrealScript or in structured form. -/
def convertDeclaration (fragment : Text) (json : Bool) : Report :=
  let reading := Declaration.parse fragment
  let events := reading.unknown.map TokenTally.event
  match reading.result with
  | .error e => ⟨.error (.declaration e), events⟩
  | .ok d => ⟨.ok { out := if json then d.toJson.pretty ++ "\n" else d.render }, events⟩

variable {m : Type → Type} [Monad m] [FileSystem m]

/-- Carries out a command; `input` reads the standard input. -/
def execute (input : m Bytes) : Command → m Report
  | .convert config => do
    let outcome ← Conversion.run config
    match outcome.result with
    | .error e => return ⟨.error (.run e), outcome.events⟩
    | .ok summary => return ⟨.ok { err := "ucport: " ++ summary.display ++ "\n" }, outcome.events⟩
  | .declaration text json =>
    if text = "-" then do
      match Utf8.decode? (← input) with
      | none => return ⟨.error .input, []⟩
      | some fragment => return convertDeclaration fragment json
    else return convertDeclaration text json

end UnrealDecl.CommandLine
