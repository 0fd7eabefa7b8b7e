import UnrealDecl.CommandLine.Execution

namespace UnrealDecl.CommandLine

def failureOf (e : IO.Error) : FileError :=
  match e with
  | .noFileOrDirectory .. => .notFound
  | .alreadyExists .. => .alreadyThere
  | .inappropriateType _ code _ => if code = 20 then .notDirectory else .isDirectory
  | .invalidArgument _ code _ => if code = 36 then .nameTooLong else .other e.toString
  | e => .other e.toString

/-- The files of the system. -/
instance : FileSystem IO where
  read path := do
    try return .ok (← IO.FS.readBinFile (String.ofList path)).toList
    catch e => return .error (failureOf e)
  makeDirs path := do
    try
      IO.FS.createDirAll (String.ofList path)
      return .ok ()
    catch e => return .error (failureOf e)
  write path content := do
    try
      IO.FS.writeBinFile (String.ofList path) ⟨content.toArray⟩
      return .ok ()
    catch e => return .error (failureOf e)

def logField (name : Text) : FieldValue → Text
  | .text value => " " ++ name ++ "=" ++ Json.quote value
  | .number value => " " ++ name ++ "=" ++ Text.ofNat value

def logLine (e : Event) : Text :=
  e.level.name ++ " " ++ e.message ++ e.fields.flatMap fun field => logField field.1 field.2

def usage : String :=
  "usage: ucport [-v...] convert [--config PATH]\n       ucport [-v...] declaration TEXT [--json]"

def readStream (stream : IO.FS.Stream) : IO Bytes := do
  return (← stream.readBinToEnd).toList

end UnrealDecl.CommandLine

open UnrealDecl UnrealDecl.CommandLine in
/-- Carries out the command that the arguments ask for. -/
def main (args : List String) : IO UInt32 := do
  match Invocation.parse? (args.map String.toList) with
  | none =>
    IO.eprintln usage
    return 2
  | some invocation =>
    let report ← execute (readStream (← IO.getStdin)) invocation.command
    for event in report.events do
      if invocation.threshold.admits event.level then
        IO.eprintln (String.ofList (logLine event))
    IO.print (String.ofList report.out)
    IO.eprint (String.ofList report.err)
    return report.exitCode.toUInt32
