import LineaLang.CommandLine.Perform

/-!
# `LineaLang.Main` — the program

Reads the file that the arguments name, and shows and writes what `CommandLine.commandLine` makes of it.
-/

namespace LineaLang.CommandLine

/-- A text for a stream of characters. What is no character is shown as the replacement character. -/
def toString (text : Text) : String :=
  String.ofList (text.map fun c => if c.isSurrogate then '\ufffd' else Char.ofNat c.val)

/-- What stands at a path. What can neither be read nor is a directory counts as absent. -/
def readEntry (path : Text) : IO Entry := do
  try
    let bytes ← IO.FS.readBinFile (toString path)
    return .file bytes.toList
  catch
    | .inappropriateType .. => return .directory
    | _ => return .absent

/-- What is shown of a cause without a status. -/
def Breakdown.message : Breakdown → Text
  | .numeral fault => fault.message
  | .tree fault => fault.message?.getD "the tree cannot be walked"
  | .undecodable fault => fault.message
  | .unwritable cause => cause.message
  | .unopened fault path => fault.message path

/-- Shows an outcome and writes its files; gives the status. -/
def Outcome.deliver (o : Outcome) : IO UInt32 := do
  for (path, text) in o.written do
    IO.FS.writeBinFile (toString path) (ByteArray.mk (Utf8.encode text).toArray)
  (← IO.getStdout).putStr (toString o.output)
  (← IO.getStderr).putStr (toString o.errors)
  match o.ending with
  | .status code => return UInt32.ofNat code
  | .broken cause =>
    (← IO.getStderr).putStrLn (toString cause.message)
    return 1

/-- Does what some arguments ask for. The entries that a request may look at are read first. -/
def runArguments [CharacterNames] (arguments : List Text) : IO UInt32 := do
  match Request.ofArguments arguments with
  | .error stop => stop.outcome.deliver
  | .ok request =>
    let paths := [Path.plain request.path, Path.withEnding request.path treeEnding, logPath]
    let entries ← paths.mapM fun path => return (path, ← readEntry path)
    let find path := ((entries.find? fun entry => entry.1 = path).map Prod.snd).getD .absent
    (request.perform find .octets).deliver

end LineaLang.CommandLine

/-- The program as it stands has no list of names at hand. -/
def main (arguments : List String) : IO UInt32 :=
  letI := LineaLang.CharacterNames.unnamed
  LineaLang.CommandLine.runArguments (arguments.map LineaLang.Text.ofString)
