import LineaLang.CommandLine.Directory
import LineaLang.CommandLine.Usage
import LineaLang.Json.Reader
import LineaLang.Json.Writer
import LineaLang.Machine.Execution
import LineaLang.Tree.Listing
import LineaLang.Tree.Outline
import LineaLang.Tree.Record

/-!
# `LineaLang.CommandLine.Perform` — doing what was asked for

Every request reads one file and comes to an outcome: what is printed on either stream, which files are
written, and how the program ends. Diagnostics end it with status one; a file of octets that are no text, a
numeral that is too long and a tree that cannot be walked end it otherwise, except in a tree file, where
they make the file invalid. A path that cannot be opened, and a text that a file or the console does not
take, end it otherwise always. The error stream takes any text.

## Contents

* `Ending`, `Outcome` — what comes out.
* `performRun`, `performTokens`, `performListing`, `performOutline`, `performEmit`, `performTree` — the
  requests.
* `Request.perform`, `commandLine` — one request, and arguments as a whole.
-/

namespace LineaLang.CommandLine

/-! ## Outcomes -/

/-- A cause that ends the program without a status of its own. -/
inductive Breakdown where
  | numeral (fault : NumeralFault)
  | tree (fault : TreeFault)
  | undecodable (fault : Utf8.Fault)
  | unwritable (cause : Utf8.Unencodable)
  | unopened (fault : PathFault) (path : Text)

/-- How the program ends. -/
inductive Ending where
  | status (code : Nat)
  | broken (cause : Breakdown)

/-- **What comes of a request**: both streams, the files that are written, and the end. -/
structure Outcome where
  output : Text
  errors : Text
  written : List (Text × Text)
  ending : Ending

namespace Outcome

/-- Failure with a line on the error stream. -/
def failed (line : Text) : Outcome := ⟨[], Text.ofLines [line], [], .status 1⟩

/-- The end by a cause without a status. -/
def brokenBy (cause : Breakdown) : Outcome := ⟨[], [], [], .broken cause⟩

/-- **Success with some lines on the output**, or the end at the first that the console does not take. -/
def lines (console : Console) : List Text → Outcome
  | [] => ⟨[], [], [], .status 0⟩
  | line :: rest =>
    match console.unwritable? line with
    | none =>
      let o := lines console rest
      { o with output := Text.ofLines [line] ++ o.output }
    | some cause => brokenBy (.unwritable cause)

/-- The outcome of a failure. -/
def ofFailure : Failure → Outcome
  | .diagnostic d => failed d.report
  | .numeral fault => brokenBy (.numeral fault)
  | .tree fault => brokenBy (.tree fault)
  | .unwritable cause => brokenBy (.unwritable cause)

/-- The outcome of a walk over a tree. -/
def ofWalk {α : Type} (show' : α → Outcome) : Except TreeFault α → Outcome
  | .ok a => show' a
  | .error fault => brokenBy (.tree fault)

end Outcome

/-! ## Files -/

/-- The entries at plain paths. -/
abbrev Lookup := Text → Entry

/-- The text of a file. -/
def textOf (octets : List UInt8) : Except Utf8.Fault Text := (Utf8.decode octets).map Text.unifyLines

/-- Opens the file at a path and goes on with its octets. -/
def withOctets (find : Lookup) (path : Text) (next : List UInt8 → Outcome) : Outcome :=
  match find (Path.plain path) with
  | .absent => .failed ("Error: file " ++ Path.plain path ++ " not found")
  | .file octets => next octets
  | .faulty fault => .brokenBy (.unopened fault (Path.plain path))

/-- Reads a file as text and goes on with it. -/
def withText (find : Lookup) (path : Text) (next : Text → Outcome) : Outcome :=
  withOctets find path fun octets =>
    match textOf octets with
    | .ok text => next text
    | .error fault => .brokenBy (.undecodable fault)

/-- Reads a file as a program and goes on with its tree. -/
def withTree [CharacterNames] (find : Lookup) (path : Text) (next : Node → Outcome) : Outcome :=
  withText find path fun source =>
    match Node.ofSource source with
    | .ok program => next program
    | .error failure => .ofFailure failure

/-- Opens a file to be written and goes on. The path is a plain one. -/
def withTarget (find : Lookup) (path : Text) (next : Outcome) : Outcome :=
  match find path with
  | .faulty fault => .brokenBy (.unopened fault path)
  | _ => next

/-! ## Running -/

/-- The file that the log is written to. -/
def logPath : Text := "debug.txt"

/-- The outcome of a run, apart from the log. -/
def outcomeOfRun : EStateM.Result RunFailure Machine Value → Outcome
  | .ok _ m => ⟨Text.ofLines m.consoleLines, [], [], .status 0⟩
  | .error failure m => { Outcome.ofFailure (.ofRun failure) with output := Text.ofLines m.consoleLines }

/-- The lines of the log after a run. -/
def logOfRun : EStateM.Result RunFailure Machine Value → List Text
  | .ok _ m => m.logLines
  | .error _ m => m.logLines

/-- **Runs a program.** With any verbosity the log is a file. -/
def runTree (find : Lookup) (console : Console) (verbosity : Nat) (program : Node) : Outcome :=
  let result := Machine.run program (.start verbosity console)
  if verbosity = 0 then outcomeOfRun result
  else
    withTarget find logPath
      { outcomeOfRun result with written := [(logPath, Text.ofLines (logOfRun result))] }

/-! ## Tree files -/

/-- Why a file holds no program. -/
inductive TreeFileError where
  | undecodable (fault : Utf8.Fault)
  | json (e : JsonError)
  | record (fault : RecordFault)

/-- The report on a file that holds no program; excessive nesting has no wording. -/
def TreeFileError.message? : TreeFileError → Option Text
  | .undecodable fault => some fault.message
  | .json e => e.message?
  | .record fault => some fault.message

/-- **The program that a tree file holds.** -/
def programOfFile (octets : List UInt8) : Except TreeFileError Node := do
  let text ← (textOf octets).mapError .undecodable
  let value ← (Json.read text).mapError .json
  (Node.programOfRecord value).mapError .record

/-- The ending of the name of a tree file. -/
def treeEnding : Text := ".ast.json"

/-! ## Requests -/

section

variable [CharacterNames] (find : Lookup) (console : Console)

/-- A token as a line of output. -/
def tokenLine (t : Token) : Text :=
  Position.describe t.position.line t.position.column ++ "\t" ++ t.kind.name ++ "\t" ++ t.lexeme

/-- Shows the tokens of a source. -/
def performTokens (path : Text) : Outcome :=
  withText find path fun source =>
    match Token.scan source with
    | .ok tokens => .lines console (tokens.map tokenLine)
    | .error e => .failed (Diagnostic.lex e).report

/-- Shows the listing of a program. -/
def performListing (path : Text) : Outcome :=
  withTree find path fun program => .ofWalk (.lines console) program.listingLines

/-- Shows the outline of a program. -/
def performOutline (path : Text) : Outcome :=
  withTree find path fun program => .ofWalk (fun text => .lines console [text]) (program.render 0)

/-- Writes a record to a tree file, and shows the path of that. A string that the file does not take ends
    this; what was written before it stays. -/
def emitRecord (target : Text) (record : Value) : Outcome :=
  let (text, cause?) := Utf8.takePieces (Json.pieces record)
  let ended := match cause? with
    | none => Outcome.lines console [target]
    | some cause => .brokenBy (.unwritable cause)
  withTarget find target { ended with written := [(target, text)] }

/-- Writes the tree of a program to a file beside it. -/
def performEmit (path : Text) : Outcome :=
  withTree find path fun program =>
    .ofWalk (emitRecord find console (Path.withEnding path treeEnding)) program.record

/-- Runs the program of a tree file. -/
def performTree (verbosity : Nat) (path : Text) : Outcome :=
  withOctets find path fun octets =>
    match programOfFile octets with
    | .ok program => runTree find console verbosity program
    | .error e =>
      match e.message? with
      | some message => .failed ("Error: invalid AST file " ++ path ++ ": " ++ message)
      | none => .brokenBy (.tree .tooDeep)

/-- Runs the program of a source. -/
def performRun (verbosity : Nat) (path : Text) : Outcome :=
  withTree find path (runTree find console verbosity)

/-- **Does what was asked for**, among the entries at hand. -/
def Request.perform (r : Request) : Outcome :=
  match r.mode? with
  | none => performRun find console r.verbosity r.path
  | some .emitTree => performEmit find console r.path
  | some .runTree => performTree find console r.verbosity r.path
  | some .listing => performListing find console r.path
  | some .tokens => performTokens find console r.path
  | some .outline => performOutline find console r.path

/-- The outcome where no request came out of the arguments. -/
def Stop.outcome : Stop → Outcome
  | .help => ⟨helpText, [], [], .status 0⟩
  | .refused refusal => ⟨[], refusalText refusal, [], .status 2⟩

/-- **What comes of some arguments**, among the entries at hand. -/
def commandLine (arguments : List Text) : Outcome :=
  match Request.ofArguments arguments with
  | .ok r => r.perform find console
  | .error stop => stop.outcome

end

/-- **The directory after an outcome**, with the files that were written. -/
def Directory.after (d : Directory) (o : Outcome) : Directory :=
  o.written.foldl (fun d file => d.put file.1 (Utf8.encode file.2)) d

end LineaLang.CommandLine
