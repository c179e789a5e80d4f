import LineaLang.Text.Basic

/-!
# `LineaLang.CommandLine.Path` — paths of files

A path is shown and looked up in its plain form, without empty parts and without parts that stand for the
directory they are in.

## Contents

* `Path.plain` — the plain form.
* `Path.withEnding` — the path of a file beside another, named after it.
-/

namespace LineaLang.Path

/-- The mark between the parts of a path. -/
def mark : CodePoint := '/'

/-- The parts of a path between marks. -/
def parts : Text → List Text
  | [] => [[]]
  | c :: rest =>
    if c = mark then [] :: parts rest
    else
      match parts rest with
      | [] => [[c]]
      | part :: more => (c :: part) :: more

/-- Does a part name something other than the directory it is in? -/
def isProper (part : Text) : Bool := !part.isEmpty && part ≠ Text.ofString "."

/-- The marks in front of a path that starts at the root: two if there are just two, else one. -/
def root (path : Text) : Text :=
  match (path.takeWhile (· = mark)).length with
  | 0 => []
  | 2 => [mark, mark]
  | _ => [mark]

/-- **The plain form of a path**; with no parts left it is the directory itself. -/
def plain (path : Text) : Text :=
  let whole := root path ++ Text.join [mark] ((parts path).filter isProper)
  if whole.isEmpty then "." else whole

/-- The plain path of the file whose name is the name in `path` and `ending`. -/
def withEnding (path ending : Text) : Text := plain path ++ ending

end LineaLang.Path
