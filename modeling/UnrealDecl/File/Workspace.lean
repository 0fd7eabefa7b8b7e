import UnrealDecl.File.Path
import UnrealDecl.File.System
import UnrealDecl.File.Tree

namespace UnrealDecl

/-- A file tree, seen from one of its directories. -/
structure Workspace where
  tree : FileTree := {}
  here : Location := []

namespace Workspace

/-- The longest name of a file, in bytes. -/
def nameLimit : Nat := 255

/-- The length that a path must stay below, in bytes. -/
def pathLimit : Nat := 4096

/-- Where a path leads: to a directory that it walks through, or to a name in one, behind which a
slash may ask for a directory. -/
inductive Target
  | directory (place : Location)
  | entry (dir : Location) (name : Text) (slash : Bool)

def enter (w : Workspace) (dir : Location) (name : Text) : Except FileError Location :=
  if name = "." then .ok dir
  else if name = ".." then .ok dir.tail
  else if nameLimit < Utf8.size name then .error .nameTooLong
  else match w.tree.get? (name :: dir) with
    | none => .error .notFound
    | some (.file _) => .error .notDirectory
    | some .directory => .ok (name :: dir)

def walk (w : Workspace) (slash : Bool) (dir : Location) : List Text → Except FileError Target
  | [] => .ok (.directory dir)
  | [name] =>
    if name = "." then .ok (.directory dir)
    else if name = ".." then .ok (.directory dir.tail)
    else if nameLimit < Utf8.size name then .error .nameTooLong
    else .ok (.entry dir name slash)
  | name :: names =>
    match w.enter dir name with
    | .ok dir => walk w slash dir names
    | .error e => .error e

def find (w : Workspace) (path : Text) : Except FileError Target :=
  if '\x00' ∈ path then .error .nulInPath
  else if path.isEmpty then .error .notFound
  else if pathLimit ≤ Utf8.size path then .error .nameTooLong
  else
    walk w (path.getLast? == some '/') (if Path.isAbsolute path then [] else w.here)
      ((Path.pieces path).filter fun piece => !piece.isEmpty)

def read (w : Workspace) (path : Text) : Except FileError Bytes :=
  match w.find path with
  | .error e => .error e
  | .ok (.directory _) => .error .isDirectory
  | .ok (.entry dir name slash) =>
    match w.tree.get? (name :: dir) with
    | none => .error .notFound
    | some .directory => .error .isDirectory
    | some (.file content) => if slash then .error .notDirectory else .ok content

/-- Writes a file, in place of one that stands there. -/
def write (w : Workspace) (path : Text) (content : Bytes) : Except FileError Workspace :=
  match w.find path with
  | .error e => .error e
  | .ok (.directory _) => .error .isDirectory
  | .ok (.entry dir name slash) =>
    if slash then .error .isDirectory
    else match w.tree.get? (name :: dir) with
      | some .directory => .error .isDirectory
      | _ => .ok { w with tree := w.tree.put (name :: dir) (.file content) }

/-- Makes one directory, whose place must be free. -/
def makeDir (w : Workspace) (path : Text) : Except FileError Workspace :=
  match w.find path with
  | .error e => .error e
  | .ok (.directory _) => .error .alreadyThere
  | .ok (.entry dir name _) =>
    match w.tree.get? (name :: dir) with
    | some _ => .error .alreadyThere
    | none => .ok { w with tree := w.tree.put (name :: dir) .directory }

def isDirectory (w : Workspace) (path : Text) : Bool :=
  match w.find path with
  | .error _ => false
  | .ok (.directory _) => true
  | .ok (.entry dir name _) => w.tree.get? (name :: dir) == some .directory

/-- Accepts that a directory cannot be made because it is there. -/
def settleDir (w : Workspace) (path : Text) (e : FileError) : Except FileError Unit × Workspace :=
  (if w.isDirectory path then .ok () else .error e, w)

/-- Makes the first of some paths a directory; the others are the paths above it, the nearest
first, and are made before it where they are missing. -/
def makeDirsAlong (w : Workspace) : List Text → Except FileError Unit × Workspace
  | [] => (.ok (), w)
  | path :: parents =>
    if path.isEmpty then (.ok (), w)
    else match w.makeDir path with
      | .ok made => (.ok (), made)
      | .error .notFound =>
        match makeDirsAlong w parents with
        | (.error e, below) => (.error e, below)
        | (.ok (), below) =>
          match below.makeDir path with
          | .ok made => (.ok (), made)
          | .error e => below.settleDir path e
      | .error e => w.settleDir path e

def makeDirs (w : Workspace) (path : Text) : Except FileError Unit × Workspace :=
  w.makeDirsAlong (path :: Path.parents path)

/-- Puts a file at a path, and makes the directories above it. -/
def install (w : Workspace) (path : Text) (content : Bytes) : Workspace :=
  let (_, below) := w.makeDirs ((Path.parent? path).getD [])
  match below.write path content with
  | .ok written => written
  | .error _ => below

/-- The files below the directory the workspace is seen from, by their path from there. -/
def files (w : Workspace) : List (Text × Bytes) :=
  w.tree.nodes.filterMap fun
    | (place, .file content) =>
      if w.here.isSuffixOf place then
        some (Text.join "/" (place.take (place.length - w.here.length)).reverse, content)
      else none
    | (_, .directory) => none

end Workspace

instance : FileSystem (StateM Workspace) where
  read path := do return (← get).read path
  makeDirs path := modifyGet fun w => w.makeDirs path
  write path content := modifyGet fun w =>
    match w.write path content with
    | .ok written => (.ok (), written)
    | .error e => (.error e, w)

end UnrealDecl
