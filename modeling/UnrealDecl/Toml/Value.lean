import UnrealDecl.Text.Basic

namespace UnrealDecl.Toml

/-- How a table came to be, which decides what may still be added to it: under a header of its own,
as a parent in another header or in a dotted key, or between braces, where it is complete. -/
inductive Origin
  | header
  | implied
  | dotted
  | inline
deriving DecidableEq, Repr

/-- A value of a document; `tables` are those under one header in double brackets. -/
inductive Value where
  | string (text : Text)
  | integer (n : Int)
  | float (text : Text)
  | boolean (b : Bool)
  | dateTime (text : Text)
  | array (items : List Value)
  | tables (members : List (List (Text × Value)))
  | table (origin : Origin) (entries : List (Text × Value))

abbrev Entries := List (Text × Value)

namespace Entries

def get? (entries : Entries) (key : Text) : Option Value :=
  entries.lookup key

def set (key : Text) (value : Value) : Entries → Entries
  | [] => [(key, value)]
  | (k, v) :: entries =>
    if k = key then (key, value) :: entries else (k, v) :: set key value entries

/-- Changes the table that a path of keys leads to, where tables that are missing are made. A path
within a header leads through every table but an inline one; a dotted key only through tables that
have no header. Of the tables under one header in double brackets it takes the last. -/
def alter (dotted : Bool) (f : Origin → Entries → Option Entries) (origin : Origin)
    (entries : Entries) : List Text → Option Entries
  | [] => f origin entries
  | key :: path =>
    match get? entries key with
    | none =>
      let made := if dotted then Origin.dotted else .implied
      (alter dotted f made [] path).map fun sub => entries ++ [(key, .table made sub)]
    | some (.table .inline _) => none
    | some (.table inner sub) =>
      if dotted && inner = .header then none
      else (alter dotted f inner sub path).map fun sub => set key (.table inner sub) entries
    | some (.tables members) =>
      match members.getLast? with
      | none => none
      | some last =>
        (alter dotted f .header last path).map fun last =>
          set key (.tables (members.dropLast ++ [last])) entries
    | some _ => none

/-- Adds a key with its value under a path of dotted keys. The table must be made by such keys, and
the key must be new. -/
def insertDotted (path : List Text) (key : Text) (value : Value) (origin : Origin)
    (entries : Entries) : Option Entries :=
  alter true
    (fun origin entries =>
      if !path.isEmpty && origin != .dotted then none
      else if (get? entries key).isSome then none
      else some (entries ++ [(key, value)]))
    origin entries path

/-- Opens the table of a header, which must be new or known only as a parent in other headers. -/
def openTable (path : List Text) (key : Text) (root : Entries) : Option Entries :=
  alter false
    (fun _ entries =>
      match get? entries key with
      | none => some (entries ++ [(key, .table .header [])])
      | some (.table .implied sub) => some (set key (.table .header sub) entries)
      | some _ => none)
    .header root path

def openMember (path : List Text) (key : Text) (root : Entries) : Option Entries :=
  alter false
    (fun _ entries =>
      match get? entries key with
      | none => some (entries ++ [(key, .tables [[]])])
      | some (.tables members) => some (set key (.tables (members ++ [[]])) entries)
      | some _ => none)
    .header root path

end Entries

end UnrealDecl.Toml
