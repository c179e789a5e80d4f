import LineaLang.Text.Digit
import LineaLang.Text.Quoted

/-!
# `LineaLang.CommandLine.Arguments` — what the arguments ask for

An argument is an option, an operand, or the mark `--`, after which everything is an operand. Options have
a short name of one letter or a long one. Short names may share an argument, as in `-vvh`; a long name may
be cut short as long as only one option is meant, and an operand of its own may follow after `=`.

Arguments are sorted first, and only then taken one by one. So an ambiguous option is reported even after
`-h`, and any other error only if `-h` does not come before it.

## Contents

* `Mode`, `OptionKind` — the options.
* `Piece`, `Piece.ofArguments` — arguments sorted.
* `Request` — what was asked for, and `Request.ofArguments` to find out.
* `Refusal` — why the arguments are refused, or `help` where that was asked for.
-/

namespace LineaLang.CommandLine

/-! ## Options -/

/-- What can be done with a file instead of running it as a program. -/
inductive Mode where
  | emitTree
  | runTree
  | listing
  | tokens
  | outline
deriving DecidableEq

/-- The options. Each mode takes an operand, the other options take none. -/
inductive OptionKind where
  | help
  | verbose
  | mode (m : Mode)
deriving DecidableEq

/-- The long name of a mode. -/
def Mode.name : Mode → Text
  | .emitTree => "--emit-ast"
  | .runTree => "--ast"
  | .listing => "--bytecode"
  | .tokens => "--tokens"
  | .outline => "--tree"

/-- The modes, in the order in which they are shown. -/
def Mode.all : List Mode := [.emitTree, .runTree, .listing, .tokens, .outline]

namespace OptionKind

/-- All names of an option, as a message shows them. -/
def title : OptionKind → Text
  | .help => "-h/--help"
  | .verbose => "-v"
  | .mode m => m.name

/-- The options by name, in the order in which they are shown. -/
def names : List (Text × OptionKind) :=
  [("-h", help), ("--help", help), ("-v", verbose), (Mode.emitTree.name, mode .emitTree),
   (Mode.runTree.name, mode .runTree), (Mode.listing.name, mode .listing),
   (Mode.tokens.name, mode .tokens), (Mode.outline.name, mode .outline)]

/-- The option with a given name. -/
def named? (name : Text) : Option OptionKind :=
  (names.find? fun entry => entry.1 = name).map Prod.snd

end OptionKind

/-! ## Refusals -/

/-- **Why arguments are refused.** -/
inductive Refusal where
  | ambiguous (given : Text) (candidates : List Text)
  | unexpectedOperand (option : OptionKind) (operand : Text)
  | missingOperand (option : OptionKind)
  | conflict (mode earlier : Mode)
  | unrecognized (arguments : List Text)
  | noFile
deriving DecidableEq

/-- The report on refused arguments. -/
def Refusal.message : Refusal → Text
  | .ambiguous given candidates =>
    "ambiguous option: " ++ given ++ " could match " ++ Text.join ", " candidates
  | .unexpectedOperand option operand =>
    "argument " ++ option.title ++ ": ignored explicit argument " ++ operand.quoted
  | .missingOperand option => "argument " ++ option.title ++ ": expected one argument"
  | .conflict mode earlier =>
    "argument " ++ mode.name ++ ": not allowed with argument " ++ earlier.name
  | .unrecognized arguments => "unrecognized arguments: " ++ Text.join " " arguments
  | .noFile =>
    "missing program file; or use --emit-ast/--ast/--bytecode/--tokens/--tree"

/-- Why no request came out of some arguments. -/
inductive Stop where
  | help
  | refused (refusal : Refusal)
deriving DecidableEq

/-! ## Sorting -/

/-- **An argument by what it is.** -/
inductive Piece where
  | operand (text : Text)
  /-- The mark `--`. -/
  | separator
  /-- Options that share an argument, and the operand attached to the last. -/
  | options (kinds : List OptionKind) (attached : Option Text)
  /-- Short options of which one has an operand attached that it does not take. -/
  | overfull (option : OptionKind) (operand : Text)
  /-- What looks like an option and is none. -/
  | unknown (text : Text)
deriving DecidableEq

namespace Piece

/-- The code point that starts an option. -/
def dash : CodePoint := '-'

/-- The mark after which everything is an operand. -/
def separatorText : Text := "--"

/-- The letters after a short option are short options too; the first that is none makes all letters from
    it on an operand. -/
def bundle (kinds : List OptionKind) (last : OptionKind) : Text → Piece
  | [] => .options (kinds ++ [last]) none
  | letter :: rest =>
    match OptionKind.named? [dash, letter] with
    | some kind => bundle (kinds ++ [last]) kind rest
    | none => .overfull last (letter :: rest)

/-- An option with an attached text. A short option takes its letters for further options. -/
def withAttached (name : Text) (kind : OptionKind) (attached : Text) : Piece :=
  match kind with
  | .mode m => .options [.mode m] (some attached)
  | kind =>
    if separatorText.isPrefixOf name ∨ attached.isEmpty then .overfull kind attached
    else bundle [] kind attached

/-- The option of a name, with what may be attached to it. -/
def ofOption (name : Text) (kind : OptionKind) : (attached : Option Text) → Piece
  | none => .options [kind] none
  | some attached => withAttached name kind attached

/-- The readings of an argument as an option cut short, or as a short option with letters after it. -/
def readings (text : Text) : List (Text × OptionKind × Option Text) :=
  if separatorText.isPrefixOf text then
    let (start, attached) := match Text.splitAt? '=' text with
      | some (start, attached) => (start, some attached)
      | none => (text, none)
    (OptionKind.names.filter fun entry => start.isPrefixOf entry.1).map fun entry =>
      (entry.1, entry.2, attached)
  else
    (OptionKind.names.filter fun entry => entry.1 = text.take 2).map fun entry =>
      (entry.1, entry.2, some (text.drop 2))

/-- One or more digits. -/
def isDigits (text : Text) : Bool := !text.isEmpty && text.all CodePoint.isDigit

/-- A negative number: digits after a dash, perhaps with a point among or before them. A line feed at the
    end does not count. -/
def isNegativeNumber (text : Text) : Bool :=
  let body := if text.getLast? = some Text.newline then text.dropLast else text
  match body with
  | [] => false
  | c :: magnitude =>
    c = dash && (isDigits magnitude ||
      match Text.splitAt? '.' magnitude with
      | some (whole, fraction) => whole.all CodePoint.isDigit && isDigits fraction
      | none => false)

/-- **Sorts an argument** other than the mark `--`. A text that looks like an option and is none is an
    operand if it is a negative number or holds a space. -/
def ofArgument (text : Text) : Except Refusal Piece :=
  match text with
  | [] => .ok (.operand text)
  | first :: rest =>
    if first ≠ dash then .ok (.operand text)
    else
      match OptionKind.named? text with
      | some kind => .ok (.options [kind] none)
      | none =>
        if rest.isEmpty then .ok (.operand text)
        else
          match exact text with
          | some piece => .ok piece
          | none =>
            match readings text with
            | [] =>
              if isNegativeNumber text ∨ text.contains (CodePoint.ofChar ' ') then .ok (.operand text)
              else .ok (.unknown text)
            | [(name, kind, attached)] => .ok (ofOption name kind attached)
            | several => .error (.ambiguous text (several.map Prod.fst))
where
  /-- A whole name with something attached after `=`. -/
  exact (text : Text) : Option Piece := do
    let (name, attached) ← Text.splitAt? '=' text
    let kind ← OptionKind.named? name
    return withAttached name kind attached

/-- **Sorts arguments.** -/
def ofArguments : List Text → Except Refusal (List Piece)
  | [] => .ok []
  | text :: rest =>
    if text = separatorText then .ok (.separator :: rest.map .operand)
    else do
      let piece ← ofArgument text
      let pieces ← ofArguments rest
      return piece :: pieces

end Piece

/-! ## Requests -/

/-- What has been asked for so far. -/
structure Draft where
  verbosity : Nat
  modes : List (Mode × Text)
  operand? : Option Text
  /-- Arguments that nothing takes, the last one first. -/
  spare : List Text

namespace Draft

/-- Nothing has been asked for. -/
def empty : Draft := ⟨0, [], none, []⟩

/-- Is a mode asked for? -/
def has (d : Draft) (m : Mode) : Bool := d.modes.any (·.1 = m)

/-- The draft with a mode and its operand, unless another mode is asked for. -/
def withMode (d : Draft) (m : Mode) (operand : Text) : Except Stop Draft :=
  match Mode.all.find? fun other => other ≠ m && d.has other with
  | some other => .error (.refused (.conflict m other))
  | none => .ok { d with modes := (m, operand) :: d.modes }

/-- The draft with one more argument that nothing takes. -/
def withSpare (d : Draft) (text : Text) : Draft := { d with spare := text :: d.spare }

/-- The draft after options that take no operand. -/
def withFlags (d : Draft) : List OptionKind → Except Stop Draft
  | [] => .ok d
  | .help :: _ => .error .help
  | .verbose :: rest => withFlags { d with verbosity := d.verbosity + 1 } rest
  | .mode m :: _ => .error (.refused (.missingOperand (.mode m)))

/-- What an attached operand means: the mark `--` is nothing. -/
def attachedOperand (attached : Text) : Text := if attached = Piece.separatorText then [] else attached

/-- **Takes the pieces one by one.** A mode takes the operand attached to it or the one that follows. Of the
    other operands the first is the program; a separator counts only where no operand stands directly
    before it and one has been taken. -/
def take (d : Draft) : List Piece → Except Stop Draft
  | [] => .ok d
  | .operand text :: .separator :: rest =>
    if d.operand?.isNone then take { d with operand? := some text } rest
    else take ((d.withSpare text).withSpare Piece.separatorText) rest
  | .operand text :: rest =>
    if d.operand?.isNone then take { d with operand? := some text } rest else take (d.withSpare text) rest
  | .separator :: rest =>
    if d.operand?.isNone then take d rest else take (d.withSpare Piece.separatorText) rest
  | .unknown text :: rest => take (d.withSpare text) rest
  | .overfull option operand :: _ => .error (.refused (.unexpectedOperand option operand))
  | .options [.mode m] (some attached) :: rest =>
    match d.withMode m (attachedOperand attached) with
    | .ok d' => take d' rest
    | .error stop => .error stop
  | .options [.mode m] none :: .operand text :: rest =>
    match d.withMode m text with
    | .ok d' => take d' rest
    | .error stop => .error stop
  | .options kinds _ :: rest =>
    match d.withFlags kinds with
    | .ok d' => take d' rest
    | .error stop => .error stop

end Draft

/-- **What was asked for**: something to be done with the file at a path. No mode means to run it. -/
structure Request where
  verbosity : Nat
  mode? : Option Mode
  path : Text
deriving DecidableEq

namespace Request

/-- The request that a draft amounts to. An empty path counts as none. -/
def ofDraft (d : Draft) : Except Stop Request :=
  if d.spare.isEmpty then
    match d.modes.head? with
    | some (m, path) =>
      if path.isEmpty then program d else .ok ⟨d.verbosity, some m, path⟩
    | none => program d
  else .error (.refused (.unrecognized d.spare.reverse))
where
  program (d : Draft) : Except Stop Request :=
    match d.operand? with
    | none => .error (.refused .noFile)
    | some path =>
      if path.isEmpty then .error (.refused .noFile) else .ok ⟨d.verbosity, none, path⟩

/-- **What some arguments ask for.** -/
def ofArguments (arguments : List Text) : Except Stop Request := do
  let pieces ← (Piece.ofArguments arguments).mapError .refused
  let draft ← Draft.empty.take pieces
  ofDraft draft

end Request

end LineaLang.CommandLine
