import LineaLang.Text.Quoted
import LineaLang.Text.Numeral

/-!
# `LineaLang.Text.Utf8` — files as text

Files hold octets, and their text is encoded in UTF-8. An octet sequence is either the encoding of a text
or has a first place that rules this out: an octet that starts no character, one that cannot continue the
character begun, or an end in the middle of a character. The report names the octets of the character up to
that place. The other way round, a surrogate has no octets.

## Contents

* `Utf8.Lead` — what the first octet of a character says about the octets after it.
* `Utf8.decode` — octets as text, or the fault that rules it out.
* `Utf8.encode` — text as octets.
* `Utf8.unencodable?`, `Utf8.takePieces` — the surrogates in a text, for which there are no octets, and what
  a file takes of a text that may hold some.
-/

namespace LineaLang

namespace Utf8

/-! ## Faults -/

/-- What rules a sequence of octets out. -/
inductive Flaw where
  | badStart
  | badContinuation
  | cutShort
deriving DecidableEq

/-- The wording of a flaw. -/
def Flaw.message : Flaw → Text
  | .badStart => "invalid start byte"
  | .badContinuation => "invalid continuation byte"
  | .cutShort => "unexpected end of data"

/-- **A flaw and its place**: the first octet of the character, its position, and how many octets are to
    blame. -/
structure Fault where
  flaw : Flaw
  octet : UInt8
  position : Nat
  count : Nat
deriving DecidableEq

/-- The report on octets that are no text. -/
def Fault.message (f : Fault) : Text :=
  let place : Text :=
    if f.count = 1 then
      "byte 0x" ++ Text.hexDigits 2 f.octet.toNat ++ " in position " ++ Numeral.ofNat f.position
    else
      "bytes in position " ++ Numeral.ofNat f.position ++ "-" ++ Numeral.ofNat (f.position + f.count - 1)
  "'utf-8' codec can't decode " ++ place ++ ": " ++ f.flaw.message

/-! ## Decoding -/

/-- **What the first octet of a character says**: the bits it carries, how many octets follow, and the range
    of the first of them. -/
structure Lead where
  bits : Nat
  following : Nat
  least : Nat
  most : Nat

/-- The first octets of characters. The ranges rule out numbers that a shorter sequence encodes, surrogates,
    and numbers that are no code points. -/
def Lead.ofOctet? (octet : UInt8) : Option Lead :=
  let b := octet.toNat
  if b < 0x80 then some ⟨b, 0, 0x80, 0xBF⟩
  else if b < 0xC2 then none
  else if b < 0xE0 then some ⟨b - 0xC0, 1, 0x80, 0xBF⟩
  else if b < 0xF0 then
    some ⟨b - 0xE0, 2, if b = 0xE0 then 0xA0 else 0x80, if b = 0xED then 0x9F else 0xBF⟩
  else if b < 0xF5 then
    some ⟨b - 0xF0, 3, if b = 0xF0 then 0x90 else 0x80, if b = 0xF4 then 0x8F else 0xBF⟩
  else none

/-- Continues the number `bits` with `count` more octets, the first of them in a range of its own. `taken`
    octets of the character have been read. -/
def continued (least most : Nat) : (count bits taken : Nat) → List UInt8 → Except (Flaw × Nat) Nat
  | 0, bits, _, _ => .ok bits
  | _ + 1, _, taken, [] => .error (.cutShort, taken)
  | count + 1, bits, taken, octet :: rest =>
    let b := octet.toNat
    if least ≤ b ∧ b ≤ most then
      continued 0x80 0xBF count (bits * 0x40 + (b - 0x80)) (taken + 1) rest
    else .error (.badContinuation, taken)

/-- The character that begins with `octet`, and how many of the octets after it belong to it. -/
def characterAt (octet : UInt8) (rest : List UInt8) : Except (Flaw × Nat) (CodePoint × Nat) :=
  match Lead.ofOctet? octet with
  | none => .error (.badStart, 1)
  | some lead =>
    (continued lead.least lead.most lead.following lead.bits 1 rest).map fun n =>
      (CodePoint.ofNat n, lead.following)

/-- Decodes octets from a position on, after skipping the `skip` octets that the last character covers. -/
def decodeFrom : (position skip : Nat) → List UInt8 → Except Fault Text
  | _, _, [] => .ok []
  | position, skip + 1, _ :: rest => decodeFrom (position + 1) skip rest
  | position, 0, octet :: rest =>
    match characterAt octet rest with
    | .ok (c, following) => (decodeFrom (position + 1) following rest).map (c :: ·)
    | .error (flaw, count) => .error ⟨flaw, octet, position, count⟩

/-- **The text that octets encode.** -/
def decode (octets : List UInt8) : Except Fault Text := decodeFrom 0 0 octets

/-! ## Encoding -/

/-- The octet that carries the last six bits of a number. -/
def tail (n : Nat) : UInt8 := UInt8.ofNat (0x80 + n % 0x40)

/-- The octets of a code point. -/
def octets (c : CodePoint) : List UInt8 :=
  let n := c.val
  if n < 0x80 then [UInt8.ofNat n]
  else if n < 0x800 then [UInt8.ofNat (0xC0 + n / 0x40), tail n]
  else if n < 0x10000 then [UInt8.ofNat (0xE0 + n / 0x1000), tail (n / 0x40), tail n]
  else [UInt8.ofNat (0xF0 + n / 0x40000), tail (n / 0x1000), tail (n / 0x40), tail n]

/-- **The octets that encode a text.** -/
def encode (text : Text) : List UInt8 := text.flatMap octets

/-- **Surrogates side by side in a text**: the first of them, its position, and how many there are. -/
structure Unencodable where
  first : CodePoint
  position : Nat
  count : Nat
deriving DecidableEq

/-- The report on a text that has no encoding. -/
def Unencodable.message (u : Unencodable) : Text :=
  let place : Text :=
    if u.count = 1 then
      "character '\\u" ++ Text.hexDigits 4 u.first.val ++ "' in position " ++ Numeral.ofNat u.position
    else
      "characters in position " ++ Numeral.ofNat u.position ++ "-"
        ++ Numeral.ofNat (u.position + u.count - 1)
  "'utf-8' codec can't encode " ++ place ++ ": surrogates not allowed"

/-- The first surrogates in a text whose first code point has a given position. -/
def unencodableFrom (position : Nat) : Text → Option Unencodable
  | [] => none
  | c :: rest =>
    if c.isSurrogate then
      some ⟨c, position, (rest.takeWhile CodePoint.isSurrogate).length + 1⟩
    else unencodableFrom (position + 1) rest

/-- **The first surrogates in a text**, which no file takes. -/
def unencodable? (text : Text) : Option Unencodable := unencodableFrom 0 text

theorem unencodableFrom_eq_none_iff {text : Text} {position : Nat} :
    unencodableFrom position text = none ↔ ∀ c ∈ text, c.isSurrogate = false := by
  induction text generalizing position with
  | nil => simp [unencodableFrom]
  | cons c rest ih => by_cases h : c.isSurrogate <;> simp [unencodableFrom, h, ih]

/-- A text has an encoding if no code point of it is a surrogate. -/
theorem unencodable?_eq_none_iff {text : Text} :
    unencodable? text = none ↔ ∀ c ∈ text, c.isSurrogate = false := unencodableFrom_eq_none_iff

/-- **What a file takes of a text that comes in pieces**: all of it, or the pieces before the first that has
    no encoding. -/
def takePieces : List Text → Text × Option Unencodable
  | [] => ([], none)
  | piece :: rest =>
    match unencodable? piece with
    | some cause => ([], some cause)
    | none =>
      let (text, cause?) := takePieces rest
      (piece ++ text, cause?)

end Utf8

end LineaLang
