import UnrealDecl.Conversion.Event

namespace UnrealDecl.CommandLine

/-- What the program is asked to do; a dash as the text of a declaration stands for the standard
input. -/
inductive Command
  | convert (config : Text)
  | declaration (text : Text) (json : Bool)
deriving DecidableEq

/-- A command, and how often more output was asked for. -/
structure Invocation where
  verbosity : Nat
  command : Command
deriving DecidableEq

def defaultConfig : Text := "ucport.config.toml"

/-- What an argument looks like: two dashes alone, two dashes and a name with perhaps a value, a
dash and letters, or anything else. -/
inductive Argument
  | separator
  | long (name : Text) (value : Option Text)
  | short (letters : Text)
  | plain (text : Text)
deriving DecidableEq

def Argument.of (arg : Text) : Argument :=
  match arg with
  | '-' :: '-' :: [] => .separator
  | '-' :: '-' :: rest =>
    match Text.cut "=" rest with
    | some (name, value) => .long name (some value)
    | none => .long rest none
  | '-' :: c :: rest => .short (c :: rest)
  | text => .plain text

/-- How often an argument asks for more output, if that is what it does. -/
def Argument.verbosity? : Argument → Option Nat
  | long name none => if name = "verbose" then some 1 else none
  | short letters => if letters.all (· == 'v') then some letters.length else none
  | _ => none

/-- The arguments of `convert`. Once two dashes were read it is `closed`: what follows are texts. -/
structure ConvertArguments where
  config : Option Text := none
  verbosity : Option Nat := none
  closed : Bool := false

/-- Reads the arguments of `convert`, which takes no text. -/
def ConvertArguments.read (a : ConvertArguments) : List Text → Option ConvertArguments
  | [] => some a
  | arg :: args =>
    if a.closed then none
    else match Argument.of arg with
      | .separator => read { a with closed := true } args
      | .long name (some value) =>
        if name = "config" && !value.isEmpty && a.config.isNone then
          read { a with config := some value } args
        else none
      | other =>
        match other.verbosity? with
        | some n => read { a with verbosity := some (a.verbosity.getD 0 + n) } args
        | none =>
          match other, args with
          | .long name none, value :: args =>
            match Argument.of value with
            | .plain value =>
              if name = "config" && !value.isEmpty && a.config.isNone then
                read { a with config := some value } args
              else none
            | _ => none
          | _, _ => none

structure DeclarationArguments where
  text : Option Text := none
  json : Bool := false
  verbosity : Option Nat := none
  closed : Bool := false

def DeclarationArguments.take (a : DeclarationArguments) (text : Text) :
    Option DeclarationArguments :=
  if a.text.isNone then some { a with text := some text } else none

def DeclarationArguments.read (a : DeclarationArguments) : List Text → Option DeclarationArguments
  | [] => some a
  | arg :: args =>
    if a.closed then (a.take arg).bind fun a => read a args
    else match Argument.of arg with
      | .separator => read { a with closed := true } args
      | .plain text => (a.take text).bind fun a => read a args
      | other =>
        match other.verbosity? with
        | some n => read { a with verbosity := some (a.verbosity.getD 0 + n) } args
        | none =>
          if other = .long "json" none && !a.json then read { a with json := true } args else none

/-- Reads the arguments of the program. A count of `-v` after the command replaces one before
it. -/
def Invocation.read (verbosity : Nat) : List Text → Option Invocation
  | [] => none
  | arg :: args =>
    match Argument.of arg with
    | .plain name =>
      if name = "convert" then
        (ConvertArguments.read {} args).map fun a =>
          ⟨a.verbosity.getD verbosity, .convert (a.config.getD defaultConfig)⟩
      else if name = "declaration" then
        match DeclarationArguments.read {} args with
        | some ⟨some text, json, inner, _⟩ => some ⟨inner.getD verbosity, .declaration text json⟩
        | _ => none
      else none
    | other =>
      match other.verbosity? with
      | some n => read (verbosity + n) args
      | none => none

def Invocation.parse? (args : List Text) : Option Invocation :=
  Invocation.read 0 args

/-- The least severe events that are shown: warnings, and one level more for each `-v`. -/
def Invocation.threshold (i : Invocation) : Level :=
  match i.verbosity with
  | 0 => .warn
  | 1 => .info
  | 2 => .debug
  | _ => .trace

end UnrealDecl.CommandLine
