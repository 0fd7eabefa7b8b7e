import UnrealDecl.Config
import UnrealDecl.Conversion.Session
import UnrealDecl.File.Path
import UnrealDecl.File.System

namespace UnrealDecl

/-- Why a conversion stopped. -/
inductive RunError
  | read (path : Text) (cause : FileError)
  | config (path : Text)
  | write (path : Text) (cause : FileError)
deriving DecidableEq

def RunError.message : RunError → Text
  | read path cause => "failed to read " ++ path ++ ": " ++ cause.message
  | config path => "failed to parse " ++ path ++ ": not a configuration"
  | write path cause => "failed to write " ++ path ++ ": " ++ cause.message

/-- What a conversion did, with the class files in the order in which they were written. -/
structure Summary where
  written : List Text
  converted : Nat
  failed : Nat
  orphaned : Nat
  skipped : Nat
  unknownTokens : Nat
deriving DecidableEq

def Summary.display (s : Summary) : Text :=
  "wrote " ++ Text.ofNat s.written.length ++ " files (" ++ Text.ofNat s.converted
    ++ " declarations converted, " ++ Text.ofNat s.failed ++ " failed, " ++ Text.ofNat s.orphaned
    ++ " orphaned, " ++ Text.ofNat s.skipped ++ " skipped, " ++ Text.ofNat s.unknownTokens
    ++ " unknown flag tokens)"

/-- The summary of a session after its skips, with the files that were written. -/
def Session.summary (s : Session) (skipped : Nat) (written : List Text) : Summary :=
  ⟨written, s.fragments.converted, s.fragments.invalid + s.fragments.unsupported,
    s.fragments.orphaned, skipped, s.tokens.total⟩

def Summary.event (s : Summary) : Event :=
  .finished s.written.length s.converted s.failed s.orphaned s.skipped s.unknownTokens

/-- The path of a class file below the output directory. -/
def ClassFile.path (out : Text) (file : ClassFile) : Text :=
  Path.join (Path.join (Path.join out file.package) "Classes") (file.name ++ ".uc")

/-- A result with the events that were told on the way to it. -/
structure Outcome (α : Type) where
  result : Except RunError α
  events : List Event := []

def Outcome.after {α : Type} (events : List Event) (o : Outcome α) : Outcome α :=
  { o with events := events ++ o.events }

namespace Conversion

variable {m : Type → Type} [Monad m] [FileSystem m]

def loadConfig [ConfigFormat] (path : Text) : m (Except RunError Config) := do
  match ← FileSystem.read path with
  | .error e => return .error (.read path e)
  | .ok bytes =>
    match Utf8.decode? bytes with
    | none => return .error (.read path .notText)
    | some text =>
      match ConfigFormat.parse? text with
      | none => return .error (.config path)
      | some config => return .ok config

def directoryOf (configPath : Text) : Text :=
  match Path.parent? configPath with
  | some dir => if dir.isEmpty then "." else dir
  | none => "."

/-- Converts the headers one after the other. A header that cannot be read stops the conversion;
bytes in it that are no text are replaced. -/
def addHeaders (dir : Text) (s : Session) : List Text → m (Outcome Session)
  | [] => return ⟨.ok s, []⟩
  | input :: inputs => do
    let path := Path.join dir input
    match ← FileSystem.read path with
    | .error e => return ⟨.error (.read path e), []⟩
    | .ok bytes =>
      let fragments := Header.fragments (Utf8.decodeLossy bytes)
      let (next, events) := s.addAll fragments
      return (← addHeaders dir next inputs).after (.scanned path fragments.length :: events)

/-- Writes one class file, and the directory that it stands in. -/
def writeBody (path : Text) (b : ClassBody) : m (Except RunError Unit) := do
  let parent := (Path.parent? path).getD []
  match ← FileSystem.makeDirs parent with
  | .error e => return .error (.write parent e)
  | .ok () =>
    match ← FileSystem.write path (Utf8.encode b.render) with
    | .error e => return .error (.write path e)
    | .ok () => return .ok ()

/-- Writes class files one after the other, up to one that cannot be written. -/
def writeBodies (out : Text) : List ClassBody → m (Outcome (List Text))
  | [] => return ⟨.ok [], []⟩
  | b :: bodies => do
    let path := b.file.path out
    match ← writeBody path b with
    | .error e => return ⟨.error e, []⟩
    | .ok () =>
      let rest ← writeBodies out bodies
      return ⟨rest.result.map (path :: ·),
        .wrote path b.enumerations.length b.vars.length :: rest.events⟩

/-- Writes the class files of a session, less what is skipped. -/
def finish (dir : Text) (config : Config) (s : Session) : m (Outcome Summary) := do
  let (kept, skipped) := s.skip config.skip
  let outcome ← writeBodies (Path.join dir config.output) kept.catalog.bodies
  let events := .skipsApplied skipped :: outcome.events
  match outcome.result with
  | .error e => return ⟨.error e, events⟩
  | .ok written =>
    let summary := kept.summary skipped written
    return ⟨.ok summary, events ++ [summary.event]⟩

/-- Converts what the configuration at a path names. Nothing is written before every header is
read. -/
def run [ConfigFormat] (configPath : Text) : m (Outcome Summary) := do
  match ← loadConfig configPath with
  | .error e => return ⟨.error e, []⟩
  | .ok config =>
    let dir := directoryOf configPath
    let scanned ← addHeaders dir {} config.inputs
    match scanned.result with
    | .error e => return ⟨.error e, scanned.events⟩
    | .ok s => return (← finish dir config s).after scanned.events

end Conversion

end UnrealDecl
