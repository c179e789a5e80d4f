import LineaLang.Proofs.Json.RoundTrip
import LineaLang.Proofs.Text.Plain

/-!
# `LineaLang.Proofs.Json.CodePoints` — the code points of a written value

A written value holds printable code points of ASCII, line feeds, and code points of its strings and names
that are no controls: those are escaped. So it holds no carriage return, and no surrogate that its texts do
not hold.

## Contents

* `Value.texts` — the strings and names in a value.
* `Json.Made`, `Json.made_write` — what a written value is made of.
-/

namespace LineaLang

/-! ## Texts -/

mutual

/-- **The texts in a value**: strings and names. -/
def Value.texts : Value → List Text
  | .str text => [text]
  | .list items => textsOfItems items
  | .dict entries => textsOfEntries entries
  | _ => []

def Value.textsOfItems : List Value → List Text
  | [] => []
  | v :: rest => v.texts ++ textsOfItems rest

def Value.textsOfEntries : List (Text × Value) → List Text
  | [] => []
  | (name, v) :: rest => name :: (v.texts ++ textsOfEntries rest)

end

namespace Json

/-! ## Written values -/

/-- **A text of plain code points**, and of code points of some texts that are no controls. -/
def Made (texts : List Text) (written : Text) : Prop :=
  ∀ c ∈ written, c.isPlain = true ∨ 0x20 ≤ c.val ∧ ∃ text ∈ texts, c ∈ text

variable {texts more : List Text} {a b : Text}

theorem made_of_isPlain (h : ∀ c ∈ a, c.isPlain = true) : Made texts a := fun c hc => .inl (h c hc)

theorem made_of_isVisible (h : ∀ c ∈ a, c.isVisible = true) : Made texts a :=
  made_of_isPlain (Text.isPlain_of_isVisible h)

theorem Made.append (ha : Made texts a) (hb : Made texts b) : Made texts (a ++ b) := by
  intro c hc
  rcases List.mem_append.mp hc with h | h
  · exact ha c h
  · exact hb c h

theorem Made.mono (h : Made texts a) (hsub : ∀ text ∈ texts, text ∈ more) : Made more a := by
  intro c hc
  rcases h c hc with hplain | ⟨hval, text, htext, hmem⟩
  · exact .inl hplain
  · exact .inr ⟨hval, text, hsub text htext, hmem⟩

theorem isPlain_lineBreak (level : Nat) : ∀ c ∈ lineBreak level, c.isPlain = true := by
  intro c hc
  simp only [lineBreak, List.mem_cons, Text.repeated, List.mem_flatten, List.mem_replicate] at hc
  rcases hc with rfl | ⟨_, ⟨-, rfl⟩, hc⟩
  · decide
  · have hspaces : ∀ c ∈ Text.ofString "  ", c.isPlain = true := by decide
    exact hspaces c hc

theorem made_escaped {c : CodePoint} {text : Text} (hc : c ∈ text) : Made [text] (escaped c) := by
  -- Only a code point that stands for itself can be other than plain, and no control does.
  have hself : 0x20 ≤ c.val → Made [text] [c] := by
    intro hval d hd
    obtain rfl := List.mem_singleton.mp hd
    exact .inr ⟨hval, text, List.mem_singleton.mpr rfl, hc⟩
  unfold escaped
  split
  · rename_i h
    refine made_of_isPlain (List.forall_mem_cons.mpr ⟨by decide, List.forall_mem_cons.mpr
      ⟨?_, List.forall_mem_nil _⟩⟩)
    rcases h with rfl | rfl <;> decide
  split
  · exact made_of_isPlain (by decide)
  split
  · exact made_of_isPlain (by decide)
  split
  · exact made_of_isPlain (by decide)
  split
  · exact made_of_isPlain (by decide)
  split
  · exact made_of_isPlain (by decide)
  split
  · exact (made_of_isPlain (by decide)).append (made_of_isVisible (Text.isVisible_hexDigits 4 c.val))
  · rename_i hcontrol
    exact hself (Nat.not_lt.mp hcontrol)

theorem made_writeString (text : Text) : Made [text] (writeString text) := by
  have hquote : Made [text] [CodePoint.ofChar '"'] := made_of_isPlain (by decide)
  have hbody : Made [text] (text.flatMap escaped) := by
    intro c hc
    obtain ⟨d, hd, hc⟩ := List.mem_flatMap.mp hc
    exact made_escaped hd c hc
  exact hquote.append (hbody.append hquote)

theorem made_join {parts : List Text} (h : ∀ part ∈ parts, Made texts part) (level : Nat) :
    Made texts (Text.join (Text.ofString "," ++ lineBreak level) parts) := by
  have hseparator : Made texts (Text.ofString "," ++ lineBreak level) :=
    (made_of_isPlain (by decide)).append (made_of_isPlain (isPlain_lineBreak level))
  exact Text.forall_mem_join hseparator h

/-- Parts between brackets are made as the parts are. -/
theorem made_enclosed {opening closing : Text} (ho : ∀ c ∈ opening, c.isPlain = true)
    (hc : ∀ c ∈ closing, c.isPlain = true) {level : Nat} {parts : List (List Text)}
    (h : ∀ part ∈ parts, Made texts part.flatten) : Made texts (enclose opening closing level parts).flatten := by
  rw [flatten_enclose]
  split
  · exact (made_of_isPlain ho).append (made_of_isPlain hc)
  · refine (made_of_isPlain ho).append ((made_of_isPlain (isPlain_lineBreak _)).append ((made_join ?_ _).append
      ((made_of_isPlain (isPlain_lineBreak _)).append (made_of_isPlain hc))))
    intro part hpart
    obtain ⟨pieces, hpieces, rfl⟩ := List.mem_map.mp hpart
    exact h pieces hpieces

theorem made_ofInt (n : Int) : Made texts (Numeral.ofInt n) := made_of_isVisible (Numeral.isVisible_ofInt n)

theorem made_writeDouble (x : Binary64) : Made texts (writeDouble x) := by
  rcases x with _ | (_ | _) | ⟨negative, units, h⟩
  · exact made_of_isPlain (by decide)
  · exact made_of_isPlain (by decide)
  · exact made_of_isPlain (by decide)
  · exact made_of_isVisible (Binary64.isVisible_repr (.finite negative units h))

mutual

theorem made_piecesAt (level : Nat) (v : Value) : Made v.texts (piecesAt level v).flatten := by
  cases v with
  | none =>
    rw [piecesAt, List.flatten_singleton]
    exact made_of_isPlain (by decide)
  | bool b =>
    rw [piecesAt, List.flatten_singleton]
    cases b <;> exact made_of_isPlain (by decide)
  | int n =>
    rw [piecesAt, List.flatten_singleton]
    exact made_ofInt n
  | float x =>
    rw [piecesAt, List.flatten_singleton]
    exact made_writeDouble x
  | str text =>
    rw [piecesAt, List.flatten_singleton]
    exact made_writeString text
  | list items => exact made_enclosed (by decide) (by decide) (made_itemPieces (level + 1) items)
  | dict entries => exact made_enclosed (by decide) (by decide) (made_memberPieces (level + 1) entries)

theorem made_itemPieces (level : Nat) (items : List Value) :
    ∀ part ∈ itemPieces level items, Made (Value.textsOfItems items) part.flatten := by
  cases items with
  | nil => exact List.forall_mem_nil _
  | cons v rest =>
    refine List.forall_mem_cons.mpr ⟨(made_piecesAt level v).mono fun _ => List.mem_append_left _, ?_⟩
    intro part hpart
    exact (made_itemPieces level rest part hpart).mono fun _ => List.mem_append_right _

theorem made_memberPieces (level : Nat) (entries : List (Text × Value)) :
    ∀ part ∈ memberPieces level entries, Made (Value.textsOfEntries entries) part.flatten := by
  cases entries with
  | nil => exact List.forall_mem_nil _
  | cons entry rest =>
    obtain ⟨name, v⟩ := entry
    refine List.forall_mem_cons.mpr ⟨?_, fun part hpart => (made_memberPieces level rest part hpart).mono ?_⟩
    · have hname : Made (Value.textsOfEntries ((name, v) :: rest)) (writeString name) :=
        (made_writeString name).mono fun text htext => List.mem_singleton.mp htext ▸ List.mem_cons_self
      have hvalue : Made (Value.textsOfEntries ((name, v) :: rest)) (piecesAt level v).flatten :=
        (made_piecesAt level v).mono fun _ htext => List.mem_cons_of_mem _ (List.mem_append_left _ htext)
      exact hname.append ((made_of_isPlain (by decide)).append hvalue)
    · intro text htext
      exact List.mem_cons_of_mem _ (List.mem_append_right _ htext)

end

/-- **What stands in a written value**: plain code points, and what is no control of its texts. -/
theorem made_write (v : Value) : Made v.texts (write v) := made_piecesAt 0 v

end Json

end LineaLang
