import LineaLang.Text.Utf8
import LineaLang.Proofs.Text.Numeral

/-!
# `LineaLang.Proofs.Text.Utf8` — a text is read back from its octets

Each code point that is no surrogate has octets of its own. The first tells how many follow and in which
range the next one lies, and that range holds the octet that is written there: it rules out just the numbers
that fewer octets encode, the surrogates, and what is beyond the last code point. So decoding takes the octets
of a text character by character.

## Contents

* `Utf8.characterAt_octets`, `Utf8.decode_encode` — the round trip, of a code point and of a text.
* `Utf8.takePieces_eq` — a file takes all pieces of a text without surrogates.
* `Text.unifyLines_eq_self` — a text without carriage returns is read as it stands.
-/

namespace LineaLang.Utf8

/-! ## Octets -/

theorem toNat_ofNat {n : Nat} (h : n < 0x100) : (UInt8.ofNat n).toNat = n := by
  rw [UInt8.toNat_ofNat']
  exact Nat.mod_eq_of_lt h

theorem toNat_tail (n : Nat) : (tail n).toNat = 0x80 + n % 0x40 := toNat_ofNat (by omega)

/-- An octet in its range adds six bits. -/
theorem continued_tail {least most n : Nat} (hlow : least ≤ 0x80 + n % 0x40) (hhigh : 0x80 + n % 0x40 ≤ most)
    (count bits taken : Nat) (rest : List UInt8) :
    continued least most (count + 1) bits taken (tail n :: rest) =
      continued 0x80 0xBF count (bits * 0x40 + n % 0x40) (taken + 1) rest := by
  rw [continued]
  simp only [toNat_tail]
  rw [if_pos ⟨hlow, hhigh⟩, Nat.add_sub_cancel_left]

/-- Only the first of them has a range of its own. -/
theorem continued_next (n count bits taken : Nat) (rest : List UInt8) :
    continued 0x80 0xBF (count + 1) bits taken (tail n :: rest) =
      continued 0x80 0xBF count (bits * 0x40 + n % 0x40) (taken + 1) rest :=
  continued_tail (by omega) (by omega) count bits taken rest

theorem characterAt_of_lead {octet : UInt8} {rest : List UInt8} {lead : Lead} {c : CodePoint} {n : Nat}
    (hlead : Lead.ofOctet? octet = some lead)
    (hbits : continued lead.least lead.most lead.following lead.bits 1 rest = .ok n) (hn : n = c.val) :
    characterAt octet rest = .ok (c, lead.following) := by
  rw [characterAt, hlead]
  simp only [hbits, Except.map, hn, CodePoint.ofNat_val]

/-- **The octets of a code point are read as the code point**, unless it is a surrogate. -/
theorem characterAt_octets {c : CodePoint} (h : c.isSurrogate = false) (rest : List UInt8) :
    ∃ lead more, octets c = lead :: more ∧ characterAt lead (more ++ rest) = .ok (c, more.length) := by
  have hlt := c.isLt
  have hsurrogate : ¬ (0xD800 ≤ c.val ∧ c.val ≤ 0xDFFF) := by
    simpa [CodePoint.isSurrogate, CodePoint.within] using h
  -- One to four octets; in each case the range of the second is the one that the first leaves for it.
  unfold octets
  simp only
  split
  · rename_i h1
    have hlead : Lead.ofOctet? (UInt8.ofNat c.val) = some ⟨c.val, 0, 0x80, 0xBF⟩ := by
      rw [Lead.ofOctet?]
      simp only [toNat_ofNat (Nat.lt_trans h1 (by decide)), if_pos h1]
    exact ⟨_, _, rfl, characterAt_of_lead hlead rfl rfl⟩
  split
  · rename_i h1 h2
    have hlead : Lead.ofOctet? (UInt8.ofNat (0xC0 + c.val / 0x40)) = some ⟨c.val / 0x40, 1, 0x80, 0xBF⟩ := by
      have hb : 0xC0 + c.val / 0x40 < 0x100 := by omega
      rw [Lead.ofOctet?]
      simp only [toNat_ofNat hb]
      rw [if_neg (by omega), if_neg (by omega), if_pos (by omega), Nat.add_sub_cancel_left]
    refine ⟨_, _, rfl, characterAt_of_lead hlead (continued_next _ _ _ _ _) ?_⟩
    simp only
    omega
  split
  · rename_i h1 h2 h3
    have hlead : Lead.ofOctet? (UInt8.ofNat (0xE0 + c.val / 0x1000)) =
        some ⟨c.val / 0x1000, 2, if c.val / 0x1000 = 0 then 0xA0 else 0x80,
          if c.val / 0x1000 = 0xD then 0x9F else 0xBF⟩ := by
      have hb : 0xE0 + c.val / 0x1000 < 0x100 := by omega
      have hfirst : 0xE0 + c.val / 0x1000 = 0xE0 ↔ c.val / 0x1000 = 0 := by omega
      have hlast : 0xE0 + c.val / 0x1000 = 0xED ↔ c.val / 0x1000 = 0xD := by omega
      rw [Lead.ofOctet?]
      simp only [toNat_ofNat hb, hfirst, hlast]
      rw [if_neg (by omega), if_neg (by omega), if_neg (by omega), if_pos (by omega), Nat.add_sub_cancel_left]
    refine ⟨_, _, rfl, characterAt_of_lead hlead
      ((continued_tail ?_ ?_ _ _ _ _).trans (continued_next _ _ _ _ _)) ?_⟩
    · simp only
      split <;> omega
    · simp only
      split <;> omega
    · simp only
      omega
  · rename_i h1 h2 h3
    have hlead : Lead.ofOctet? (UInt8.ofNat (0xF0 + c.val / 0x40000)) =
        some ⟨c.val / 0x40000, 3, if c.val / 0x40000 = 0 then 0x90 else 0x80,
          if c.val / 0x40000 = 4 then 0x8F else 0xBF⟩ := by
      have hb : 0xF0 + c.val / 0x40000 < 0x100 := by omega
      have hfirst : 0xF0 + c.val / 0x40000 = 0xF0 ↔ c.val / 0x40000 = 0 := by omega
      have hlast : 0xF0 + c.val / 0x40000 = 0xF4 ↔ c.val / 0x40000 = 4 := by omega
      rw [Lead.ofOctet?]
      simp only [toNat_ofNat hb, hfirst, hlast]
      rw [if_neg (by omega), if_neg (by omega), if_neg (by omega), if_neg (by omega), if_pos (by omega),
        Nat.add_sub_cancel_left]
    refine ⟨_, _, rfl, characterAt_of_lead hlead ((continued_tail ?_ ?_ _ _ _ _).trans
      ((continued_next _ _ _ _ _).trans (continued_next _ _ _ _ _))) ?_⟩
    · simp only
      split <;> omega
    · simp only
      split <;> omega
    · simp only
      omega

/-! ## Texts -/

/-- The octets that a character covers are passed over. -/
theorem decodeFrom_append (position : Nat) (covered rest : List UInt8) :
    decodeFrom position covered.length (covered ++ rest) = decodeFrom (position + covered.length) 0 rest := by
  induction covered generalizing position with
  | nil => rfl
  | cons octet covered ih =>
    rw [List.length_cons, List.cons_append, decodeFrom, ih, Nat.add_assoc, Nat.add_comm 1]

/-- **A text is read from its octets**, if it holds no surrogate. -/
theorem decode_encode {text : Text} (h : ∀ c ∈ text, c.isSurrogate = false) : decode (encode text) = .ok text := by
  -- Positions only show in faults, so the text is read alike from each of them.
  have hfrom : ∀ position, decodeFrom position 0 (encode text) = .ok text := by
    induction text with
    | nil =>
      intro position
      rfl
    | cons c rest ih =>
      intro position
      rw [List.forall_mem_cons] at h
      obtain ⟨lead, more, hoctets, hcharacter⟩ := characterAt_octets h.1 (encode rest)
      have hcons : encode (c :: rest) = lead :: (more ++ encode rest) := by
        rw [encode, List.flatMap_cons, hoctets, List.cons_append, encode]
      rw [hcons, decodeFrom, hcharacter]
      simp only [decodeFrom_append, ih h.2, Except.map]
  exact hfrom 0

/-- **A file takes all of a text** that holds no surrogate. -/
theorem takePieces_eq {pieces : List Text} (h : ∀ c ∈ pieces.flatten, c.isSurrogate = false) :
    takePieces pieces = (pieces.flatten, none) := by
  induction pieces with
  | nil => rfl
  | cons piece rest ih =>
    rw [List.flatten_cons] at h ⊢
    have hpiece := unencodable?_eq_none_iff.mpr fun c hc => h c (List.mem_append_left _ hc)
    rw [takePieces, hpiece, ih fun c hc => h c (List.mem_append_right _ hc)]

end LineaLang.Utf8

namespace LineaLang.Text

/-- **Without carriage returns line ends stay as they are.** -/
theorem unifyLines_eq_self {text : Text} (h : CodePoint.ofChar '\r' ∉ text) : text.unifyLines = text := by
  rw [unifyLines]
  induction text with
  | nil => rfl
  | cons c rest ih =>
    rw [List.mem_cons, not_or] at h
    rw [unifyLinesAfter, if_neg (Ne.symm h.1), ih h.2]
    simp

end LineaLang.Text
