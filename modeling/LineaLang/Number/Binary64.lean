import LineaLang.Text.Basic

/-!
# `LineaLang.Number.Binary64` — double-precision numbers, exactly

A Linea number with a fraction is an IEEE 754 double. Here it is exact data and no machine word: a finite
double is a whole number of *units* of `2 ^ -1074`, the least positive double, and a sign. The value with
`u` units is a double exactly if `u` is below `2 ^ 2098` and a multiple of its `spacing`, which is where the
53 significant bits enter. Every operation computes the exact rational result and rounds it once, with
`ofUnits`: to the nearest double, a tie to the even neighbour, and beyond the largest double to infinity.

## Contents

* `Binary64` — not-a-number, the infinities, and the finite doubles.
* `roundHalfEven`, `Binary64.roundUnits`, `Binary64.ofUnits` — the one rounding.
* `Binary64.ofRatio` — the double nearest to a quotient of natural numbers.
* `Binary64.add`, `sub`, `mul`, `div`, `neg`, `ofInt`, `ofQuotient` — arithmetic.
* `Binary64.toInt?` — the integer that a double is, if it is one.
-/

namespace LineaLang

-- Powers are the core library's under any imports: they compute, and need no algebraic structure.
attribute [local instance (2000)] instPowNat

/-! ## Rounding of quotients -/

/-- The whole number nearest to `num / den`; a tie goes to the even one. -/
def roundHalfEven (num den : Nat) : Nat :=
  let whole := num / den
  let rest := num % den
  if 2 * rest < den then whole
  else if den < 2 * rest then whole + 1
  else if whole % 2 = 0 then whole
  else whole + 1

theorem le_roundHalfEven (num den : Nat) : num / den ≤ roundHalfEven num den := by
  unfold roundHalfEven
  simp only
  split
  · exact Nat.le_refl _
  · split
    · exact Nat.le_succ _
    · split
      · exact Nat.le_refl _
      · exact Nat.le_succ _

theorem roundHalfEven_le (num den : Nat) : roundHalfEven num den ≤ num / den + 1 := by
  unfold roundHalfEven
  simp only
  split
  · exact Nat.le_succ _
  · split
    · exact Nat.le_refl _
    · split
      · exact Nat.le_succ _
      · exact Nat.le_refl _

namespace Binary64

/-! ## Units and spacing -/

/-- One is `2 ^ 1074` units. -/
def unitsPerOne : Nat := 2 ^ (1074 : Nat)

/-- `2 ^ 1024` in units, the first power of two beyond the finite doubles. -/
def unitsBound : Nat := 2 ^ (2098 : Nat)

/-- The distance, in units, between neighbouring doubles around the value with `units` units: 53
    significant bits remain. -/
def spacing (units : Nat) : Nat := 2 ^ (units.log2 - 52)

/-- **The magnitudes of finite doubles**, in units. -/
def Representable (units : Nat) : Prop := units < unitsBound ∧ units % spacing units = 0

instance (units : Nat) : Decidable (Representable units) :=
  inferInstanceAs (Decidable (_ ∧ _))

theorem unitsBound_pos : 0 < unitsBound := by
  unfold unitsBound
  generalize 2098 = exponent
  exact Nat.two_pow_pos exponent

theorem representable_zero : Representable 0 := ⟨unitsBound_pos, Nat.zero_mod _⟩

/-! ## The one rounding -/

/-- The multiple of the spacing that is nearest to `num / den` units; a tie goes to the even multiple. -/
def roundUnits (num den : Nat) : Nat :=
  roundHalfEven num (den * spacing (num / den)) * spacing (num / den)

/-- A multiple of `2 ^ e` between `2 ^ (e + 52)` and `2 ^ (e + 53)` is a multiple of its spacing. -/
theorem mod_spacing_of_mul_pow {m e : Nat} (hlo : 2 ^ (52 : Nat) ≤ m) (hhi : m ≤ 2 ^ (53 : Nat)) :
    m * 2 ^ e % spacing (m * 2 ^ e) = 0 := by
  have hm : m ≠ 0 := by intro h; subst h; exact absurd hlo (by decide)
  have hpos : m * 2 ^ e ≠ 0 := Nat.mul_ne_zero hm (Nat.ne_of_gt (Nat.two_pow_pos e))
  unfold spacing
  rcases Nat.lt_or_eq_of_le hhi with hlt | heq
  · have hlog : (m * 2 ^ e).log2 ≤ e + 52 := by
      have : m * 2 ^ e < 2 ^ (e + 53) := by
        rw [Nat.pow_add, Nat.mul_comm (2 ^ e)]
        exact Nat.mul_lt_mul_of_pos_right hlt (Nat.two_pow_pos e)
      have := (Nat.log2_lt hpos).2 this
      omega
    have hdvd : 2 ^ ((m * 2 ^ e).log2 - 52) ∣ 2 ^ e := Nat.pow_dvd_pow 2 (by omega)
    exact Nat.mod_eq_zero_of_dvd (Nat.dvd_trans hdvd (Nat.dvd_mul_left _ _))
  · subst heq
    rw [← Nat.pow_add]
    have hlog : (2 ^ (53 + e)).log2 ≤ 53 + e := by
      have := (Nat.log2_lt (k := 53 + e + 1) (Nat.ne_of_gt (Nat.two_pow_pos (53 + e)))).2
        (Nat.pow_lt_pow_right (by decide) (by omega))
      omega
    exact Nat.mod_eq_zero_of_dvd (Nat.pow_dvd_pow 2 (by omega))

/-- Below `2 ^ 53` units the doubles are a unit apart. -/
theorem mod_spacing_of_le {u : Nat} (h : u ≤ 2 ^ (53 : Nat)) : u % spacing u = 0 := by
  rcases Nat.lt_or_eq_of_le h with hlt | heq
  · have hlog : u.log2 - 52 = 0 := by
      rcases Nat.eq_zero_or_pos u with h0 | h0
      · subst h0; simp [Nat.log2_zero]
      · have := (Nat.log2_lt (Nat.ne_of_gt h0)).2 hlt
        omega
    simp [spacing, hlog, Nat.mod_one]
  · have := mod_spacing_of_mul_pow (m := 2 ^ 53) (e := 0)
      (Nat.pow_le_pow_right (by decide) (by decide)) (Nat.le_refl _)
    simpa [heq] using this

/-- **Rounding yields a multiple of its own spacing**, also where it carries into the next power of
    two. -/
theorem roundUnits_mod_spacing (num den : Nat) :
    roundUnits num den % spacing (roundUnits num den) = 0 := by
  unfold roundUnits
  generalize hq : num / den = q
  rcases Nat.lt_or_ge q (2 ^ 53) with hlt | hge
  · have hlog : q.log2 - 52 = 0 := by
      rcases Nat.eq_zero_or_pos q with h0 | h0
      · subst h0; simp [Nat.log2_zero]
      · have := (Nat.log2_lt (Nat.ne_of_gt h0)).2 hlt
        omega
    have hgap : spacing q = 1 := by simp [spacing, hlog]
    rw [hgap, Nat.mul_one, Nat.mul_one]
    refine mod_spacing_of_le ?_
    have := roundHalfEven_le num den
    omega
  · have hq0 : q ≠ 0 := by intro h; subst h; exact absurd hge (by decide)
    have hlog : 53 ≤ q.log2 := (Nat.le_log2 hq0).2 hge
    obtain ⟨e, he⟩ : ∃ e, q.log2 = e + 52 := ⟨q.log2 - 52, by omega⟩
    have hgap : spacing q = 2 ^ e := by simp [spacing, he]
    have hloq : 2 ^ 52 * 2 ^ e ≤ q := by
      rw [← Nat.pow_add, Nat.add_comm, ← he]; exact Nat.log2_self_le hq0
    have hhiq : q < 2 ^ 53 * 2 ^ e := by
      rw [← Nat.pow_add]
      exact (Nat.log2_lt hq0).1 (by omega)
    have hdiv : num / (den * 2 ^ e) = q / 2 ^ e := by rw [← hq, Nat.div_div_eq_div_mul]
    rw [hgap]
    refine mod_spacing_of_mul_pow ?_ ?_
    · refine Nat.le_trans ?_ (le_roundHalfEven _ _)
      rw [hdiv]
      exact (Nat.le_div_iff_mul_le (Nat.two_pow_pos e)).2 hloq
    · refine Nat.le_trans (roundHalfEven_le _ _) ?_
      rw [hdiv]
      exact (Nat.div_lt_iff_lt_mul (Nat.two_pow_pos e)).2 hhiq

end Binary64

/-! ## The type -/

/-- **A double-precision number.** Zero has a sign; not-a-number is one value. -/
inductive Binary64 where
  | nan
  | infinite (negative : Bool)
  | finite (negative : Bool) (units : Nat) (representable : Binary64.Representable units)
deriving DecidableEq

namespace Binary64

instance : Inhabited Binary64 := ⟨.nan⟩

/-- The zero of either sign. -/
def zero (negative : Bool) : Binary64 := .finite negative 0 representable_zero

/-- **The double nearest to `num / den` units**, infinite beyond the largest one. -/
def ofUnits (negative : Bool) (num den : Nat) : Binary64 :=
  if h : roundUnits num den < unitsBound then
    .finite negative (roundUnits num den) ⟨h, roundUnits_mod_spacing num den⟩
  else .infinite negative

/-- The double nearest to the quotient `num / den`. -/
def ofRatio (negative : Bool) (num den : Nat) : Binary64 :=
  ofUnits negative (num * unitsPerOne) den

/-- The double nearest to an integer. -/
def ofInt (n : Int) : Binary64 := ofRatio (n < 0) n.natAbs 1

/-- The double nearest to a quotient of integers; a zero quotient has the sign of the signs' product. -/
def ofQuotient (a b : Int) : Binary64 :=
  ofRatio ((decide (a < 0)).xor (decide (b < 0))) a.natAbs b.natAbs

/-! ## Tests -/

def isFinite : Binary64 → Bool
  | .finite .. => true
  | _ => false

def isInfinite : Binary64 → Bool
  | .infinite _ => true
  | _ => false

/-- Zero of either sign. -/
def isZero : Binary64 → Bool
  | .finite _ units _ => units = 0
  | _ => false

/-- Units with their sign. -/
def signed (negative : Bool) (units : Nat) : Int := if negative then -(units : Int) else units

/-- **The integer that a double is**, if its value has no fraction. -/
def toInt? : Binary64 → Option Int
  | .finite negative units _ =>
    if units % unitsPerOne = 0 then some (signed negative (units / unitsPerOne)) else none
  | _ => none

/-! ## Arithmetic -/

/-- The sign changed, also that of zero. -/
def neg : Binary64 → Binary64
  | .nan => .nan
  | .infinite s => .infinite !s
  | .finite s u h => .finite (!s) u h

/-- **The sum, rounded once.** A sum that is exactly zero is negative only if both operands are. -/
def add : Binary64 → Binary64 → Binary64
  | .nan, _ => .nan
  | _, .nan => .nan
  | .infinite s, .infinite t => if s = t then .infinite s else .nan
  | .infinite s, .finite .. => .infinite s
  | .finite .., .infinite t => .infinite t
  | .finite s u _, .finite t v _ =>
    let sum := signed s u + signed t v
    if sum = 0 then zero (s && t) else ofUnits (sum < 0) sum.natAbs 1

/-- The difference, which is the sum with the opposite. -/
def sub (a b : Binary64) : Binary64 := a.add b.neg

/-- **The product, rounded once.** -/
def mul : Binary64 → Binary64 → Binary64
  | .nan, _ => .nan
  | _, .nan => .nan
  | .infinite s, .infinite t => .infinite (s.xor t)
  | .infinite s, .finite t v _ => if v = 0 then .nan else .infinite (s.xor t)
  | .finite s u _, .infinite t => if u = 0 then .nan else .infinite (s.xor t)
  | .finite s u _, .finite t v _ => ofUnits (s.xor t) (u * v) unitsPerOne

/-- **The quotient, rounded once.** A zero divisor gives an infinity, or not-a-number under zero. -/
def div : Binary64 → Binary64 → Binary64
  | .nan, _ => .nan
  | _, .nan => .nan
  | .infinite _, .infinite _ => .nan
  | .infinite s, .finite t _ _ => .infinite (s.xor t)
  | .finite s _ _, .infinite t => zero (s.xor t)
  | .finite s u _, .finite t v _ =>
    if v = 0 then (if u = 0 then .nan else .infinite (s.xor t))
    else ofUnits (s.xor t) (u * unitsPerOne) v

end Binary64

end LineaLang
