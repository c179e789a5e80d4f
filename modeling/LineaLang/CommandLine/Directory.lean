import LineaLang.CommandLine.Path
import LineaLang.Text.Quoted
import LineaLang.Text.Utf8

/-!
# `LineaLang.CommandLine.Directory` — what stands at a path

A path is followed part by part, from the directory that the program runs in or from the root. The files below
that directory are known, and the directories on the way to them. What a path from the root leads to is a
matter of the system, and part of the directory as it is given.

## Contents

* `PathFault` — why a path cannot be opened, although something may stand there.
* `Entry` — what stands at a path.
* `Directory` — files by their paths, with `Directory.entry` and `Directory.put`.
-/

namespace LineaLang.CommandLine

/-! ## Entries -/

/-- **Why a path cannot be opened.** -/
inductive PathFault where
  | isDirectory
  /-- A part of the path, or all of it, is longer than the system allows. -/
  | tooLong
deriving DecidableEq

/-- The report on a path that cannot be opened. -/
def PathFault.message (fault : PathFault) (path : Text) : Text :=
  match fault with
  | .isDirectory => "[Errno 21] Is a directory: " ++ path.quoted
  | .tooLong => "[Errno 36] File name too long: " ++ path.quoted

/-- **What stands at a path.** -/
inductive Entry where
  | absent
  | file (octets : List UInt8)
  | faulty (fault : PathFault)

/-- A directory cannot be opened. -/
def Entry.directory : Entry := .faulty .isDirectory

/-! ## Places

A place is a list of parts, the innermost first. The part `..` is left only where the way leads out of the
directory in which it began. -/

/-- The part that leads one directory up. -/
def upward : Text := ".."

/-- The place one directory up. Above the root is the root. -/
def placeAbove (rooted : Bool) : List Text → List Text
  | [] => if rooted then [] else [upward]
  | part :: outer => if part = upward then upward :: part :: outer else outer

/-- The most octets of one part. -/
def maxPartLength : Nat := 255

/-- The most octets of a path. -/
def maxPathLength : Nat := 4095

/-! ## Directories -/

/-- **The files below a directory**, by their plain paths, and what stands outside it. -/
structure Directory where
  files : List (Text × List UInt8)
  /-- What stands at a place below the root. -/
  outside : (place : List Text) → Entry

namespace Directory

/-- The octets of the file at a plain path. -/
def find? (d : Directory) (path : Text) : Option (List UInt8) :=
  (d.files.find? fun file => file.1 = path).map Prod.snd

/-- **The directory with a file at a plain path**, in the place of an earlier one. -/
def put (d : Directory) (path : Text) (octets : List UInt8) : Directory :=
  { d with files := (path, octets) :: d.files.filter fun file => file.1 ≠ path }

/-- What stands at a place of the directory, or above it. -/
def entryBelow (d : Directory) (place : List Text) : Entry :=
  let path := Text.join [Path.mark] place.reverse
  match d.find? path with
  | some octets => .file octets
  | none =>
    let inner := path ++ [Path.mark]
    if place.all (· = upward) || d.files.any fun file => (Text.dropStart? inner file.1).isSome then .directory
    else .absent

/-- What stands at a place that is reached from the root. -/
def entryAtRoot (d : Directory) (place : List Text) : Entry := if place.isEmpty then .directory else d.outside place

/-- Follows parts from a place. A part after a file leads nowhere. -/
def follow (d : Directory) (rooted : Bool) : (place parts : List Text) → Entry
  | place, [] => if rooted then d.entryAtRoot place else d.entryBelow place
  | place, part :: rest =>
    if part = upward then follow d rooted (placeAbove rooted place) rest
    else if maxPartLength < (Utf8.encode part).length then .faulty .tooLong
    else
      match if rooted then d.entryAtRoot (part :: place) else d.entryBelow (part :: place) with
      | .file octets => if rest.isEmpty then .file octets else .absent
      | .faulty .isDirectory => follow d rooted (part :: place) rest
      | entry => entry

/-- **What stands at a path.** A path with the code point zero leads nowhere. -/
def entry (d : Directory) (path : Text) : Entry :=
  let parts := (Path.parts path).filter Path.isProper
  if path.any fun c => c.val = 0 then .absent
  else if maxPathLength < (Utf8.encode path).length then .faulty .tooLong
  else d.follow (!(Path.root path).isEmpty) [] parts

end Directory

end LineaLang.CommandLine
