import LineaLang.Text.Digit

/-!
# `LineaLang.Text.Unquoted` — the text that a literal denotes

The inverse side of `LineaLang.Text.Quoted`, for every spelling that a source may use. A literal stands in
quotes, single or triple, after an optional letter that may make it raw. A backslash starts an escape; one
that is not known stands for itself. A literal is refused if an escape by number or by name is broken, or if
it holds a line break outside triple quotes.

## Contents

* `CharacterNames` — the names that characters have.
* `Text.escapeAt?` — the meaning of an escape and its length.
* `Text.Quoting`, `Text.openingAt?` — how a literal is written, read off its first code points.
* `Text.bodyFrom?` — the body of a literal up to its closing quotes.
* `Text.literalAt?` — the literal at the head of a text.
-/

namespace LineaLang

/-- **The names of characters**, by which escapes may call them. A standard lists them, and the list grows; whatever is
    said of literals is said for any such list. Whether the case of a name matters is for the list to say. -/
class CharacterNames where
  /-- The character with a name, if there is one. -/
  find? : (name : Text) → Option CodePoint

/-- No character has a name. -/
abbrev CharacterNames.unnamed : CharacterNames := ⟨fun _ => none⟩

namespace Text

variable [CharacterNames]

/-! ## Escapes -/

/-- The number that hexadecimal digits denote; none if there are fewer than `count` or one is no digit. -/
def hexValue? (count : Nat) (text : Text) : Option Nat :=
  let digits := text.take count
  if digits.length < count then none
  else digits.foldlM (fun acc c => c.hexDigit?.map (16 * acc + ·)) 0

/-- The number that octal digits denote. -/
def octalValue (digits : Text) : Nat :=
  digits.foldl (fun acc c => 8 * acc + (c.val - 0x30)) 0

/-- An escape by number: `count` hexadecimal digits that denote a code point. -/
def numericEscape? (count : Nat) (text : Text) : Option (Text × Nat) :=
  match hexValue? count text with
  | some n => if h : n < 0x110000 then some ([⟨n, h⟩], count + 1) else none
  | none => none

/-- An escape by name: the name stands in braces and is not empty. -/
def namedEscape? (text : Text) : Option (Text × Nat) := do
  let inside ← dropStart? "\x7b" text
  let (name, _) ← splitAt? '\x7d' inside
  if name.isEmpty then none
  else
    let c ← CharacterNames.find? name
    return ([c], name.length + 3)

/-- The escapes of one letter. -/
def letterEscapes : List (Char × Nat) :=
  [('\\', 0x5C), ('\'', 0x27), ('"', 0x22), ('a', 0x07), ('b', 0x08), ('f', 0x0C), ('n', 0x0A),
   ('r', 0x0D), ('t', 0x09), ('v', 0x0B)]

/-- **The meaning of an escape**, given what follows its backslash, and how much of that belongs to it. An
    escaped line end means nothing; an unknown escape is kept with its backslash. -/
def escapeAt? : Text → Option (Text × Nat)
  | [] => none
  | c :: rest =>
    match letterEscapes.find? fun entry => c = CodePoint.ofChar entry.1 with
    | some (_, meaning) => some ([CodePoint.ofNat meaning], 1)
    | none =>
      if c = newline then some ([], 1)
      else if c.octalDigit?.isSome then
        let digits := ((c :: rest).take 3).takeWhile (·.octalDigit?.isSome)
        some ([CodePoint.ofNat (octalValue digits)], digits.length)
      else if c = CodePoint.ofChar 'x' then numericEscape? 2 rest
      else if c = CodePoint.ofChar 'u' then numericEscape? 4 rest
      else if c = CodePoint.ofChar 'U' then numericEscape? 8 rest
      else if c = CodePoint.ofChar 'N' then namedEscape? rest
      else some ([CodePoint.ofChar '\\', c], 1)

/-! ## Literals -/

/-- **How a literal is written**: the quote, whether three of them enclose it, and whether a backslash in it
    stands for itself. -/
structure Quoting where
  quote : CodePoint
  triple : Bool
  raw : Bool
deriving DecidableEq

/-- The quotes that close a literal. -/
def Quoting.closing (q : Quoting) : Text := if q.triple then [q.quote, q.quote, q.quote] else [q.quote]

/-- The quoting that begins with a quote, given what follows it; and what follows all opening quotes. -/
def openedBy (raw : Bool) (quote : CodePoint) (rest : Text) : Quoting × Text :=
  match dropStart? [quote, quote] rest with
  | some more => (⟨quote, true, raw⟩, more)
  | none => (⟨quote, false, raw⟩, rest)

/-- **The opening of a literal** at the head of a text, and what follows it. The letter `r` makes it raw,
    and `u` says nothing. -/
def openingAt? : Text → Option (Quoting × Text)
  | [] => none
  | c :: rest =>
    if c.isQuote then some (openedBy false c rest)
    else
      match rest with
      | [] => none
      | quote :: more =>
        if !quote.isQuote then none
        else if c.toLower = CodePoint.ofChar 'r' then some (openedBy true quote more)
        else if c.toLower = CodePoint.ofChar 'u' then some (openedBy false quote more)
        else none

/-- The meaning of what follows a backslash, and how much of that belongs to it. -/
def Quoting.escapeAt? (q : Quoting) (rest : Text) : Option (Text × Nat) :=
  if q.raw then rest.head?.map fun c => ([CodePoint.ofChar '\\', c], 1) else Text.escapeAt? rest

/-- **Reads the body of a literal** up to its closing quotes, after skipping the `skip` code points that an
    escape has used; gives the text, and what follows the quotes. -/
def bodyFrom? (q : Quoting) : (skip : Nat) → Text → Option (Text × Text)
  | _, [] => none
  | skip + 1, _ :: rest => bodyFrom? q skip rest
  | 0, c :: rest =>
    match dropStart? q.closing (c :: rest) with
    | some more => some ([], more)
    | none =>
      if c = CodePoint.ofChar '\\' then
        match q.escapeAt? rest with
        | some (meaning, used) =>
          (bodyFrom? q used rest).map fun (text, more) => (meaning ++ text, more)
        | none => none
      else if c = newline ∧ !q.triple then none
      else (bodyFrom? q 0 rest).map fun (text, more) => (c :: text, more)

/-- **The text that the literal at the head of a text denotes**, and what follows the literal. Line ends are
    line feeds here. -/
def literalAt? (text : Text) : Option (Text × Text) :=
  (openingAt? text).bind fun (q, rest) => bodyFrom? q 0 rest

end Text

end LineaLang
