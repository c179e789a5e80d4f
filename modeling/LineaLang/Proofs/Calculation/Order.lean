import LineaLang.Calculation

/-!
# `LineaLang.Proofs.Calculation.Order` — comparisons and the orders behind them

Any two values are equal or not, but less or greater is said of two numbers or two strings only. Behind this stand two
strict total orders. A number has its exact position on the number line, whichever kind it is of, and strings are
ordered code point by code point. On numbers and on strings every comparison is that of the members of one of these
orders (`ComparesAs`), so the laws of comparison are laws of strict total orders. Not-a-number has no position: it is
equal to nothing, and in no order to any number.

## Contents

* `Rank`, `Text` — the two orders are strict and total.
* `Calculation.Ordered`, `Calculation.ComparesAs` — values that have an order, and what their comparison comes down to.
* `Calculation.LawfulComparison`, `Calculation.comparison_lawful` — the laws of comparison.
-/

namespace LineaLang

/-! ## Two strict total orders -/

namespace Rank

theorem at_lt_at {a b : Int} : Rank.at a < Rank.at b ↔ a < b := decide_eq_true_iff

theorem lt_asymm {x y : Rank} (h : x < y) : ¬ y < x := by
  cases x with
  | below => cases y <;> exact nofun
  | above => cases h
  | «at» a =>
    cases y with
    | below => cases h
    | above => exact nofun
    | «at» b =>
      rw [at_lt_at] at h ⊢
      exact Int.lt_asymm h

theorem lt_trans {x y z : Rank} (hxy : x < y) (hyz : y < z) : x < z := by
  cases y with
  | above => cases hyz
  | below => cases x <;> cases hxy
  | «at» b =>
    cases x with
    | above => cases hxy
    | below =>
      cases z with
      | below => cases hyz
      | «at» _ | above => rfl
    | «at» a =>
      cases z with
      | below => cases hyz
      | above => rfl
      | «at» c =>
        rw [at_lt_at] at hxy hyz ⊢
        exact Int.lt_trans hxy hyz

/-- **Any two positions are the same, or one is before the other.** -/
theorem eq_of_not_lt {x y : Rank} (hxy : ¬ x < y) (hyx : ¬ y < x) : x = y := by
  cases x with
  | below =>
    cases y with
    | below => rfl
    | «at» _ | above => exact absurd rfl hxy
  | above =>
    cases y with
    | above => rfl
    | below | «at» _ => exact absurd rfl hyx
  | «at» a =>
    cases y with
    | below => exact absurd rfl hyx
    | above => exact absurd rfl hxy
    | «at» b =>
      rw [at_lt_at] at hxy hyx
      rw [Int.le_antisymm (Int.not_lt.mp hyx) (Int.not_lt.mp hxy)]

instance : Std.Asymm (fun x y : Rank => x < y) := ⟨fun _ _ => lt_asymm⟩

instance : Std.Trichotomous (fun x y : Rank => x < y) := ⟨fun _ _ => eq_of_not_lt⟩

instance : Trans (fun x y : Rank => x < y) (fun x y : Rank => x < y) (fun x y : Rank => x < y) := ⟨lt_trans⟩

end Rank

namespace CodePoint

instance : Std.Asymm (fun c d : CodePoint => c < d) := ⟨fun _ _ => Nat.lt_asymm⟩

instance : Std.Trichotomous (fun c d : CodePoint => c < d) :=
  ⟨fun _ _ hcd hdc => ext_val (Nat.le_antisymm (Nat.not_lt.mp hdc) (Nat.not_lt.mp hcd))⟩

instance : Trans (fun c d : CodePoint => c < d) (fun c d : CodePoint => c < d) (fun c d : CodePoint => c < d) :=
  ⟨Nat.lt_trans⟩

end CodePoint

namespace Text

instance : Std.Asymm (fun s t : Text => s < t) := ⟨fun _ _ => List.lt_asymm⟩

instance : Std.Trichotomous (fun s t : Text => s < t) :=
  ⟨fun _ _ hst hts => List.le_antisymm (List.not_lt.mp hts) (List.not_lt.mp hst)⟩

instance : Trans (fun s t : Text => s < t) (fun s t : Text => s < t) (fun s t : Text => s < t) := ⟨List.lt_trans⟩

end Text

namespace Calculation

/-! ## Values that have an order -/

/-- **Two values of one ordered kind**: two numbers, or two strings. A truth value is no number. -/
def Ordered (a b : Value) : Prop :=
  (a.isNumber = true ∧ b.isNumber = true) ∨ (a.isText = true ∧ b.isText = true)

/-- The comparisons that ask for an order. -/
def orderings : List CompareOp := [.lt, .le, .gt, .ge]

/-- **Two values compare as two members of an order do.** -/
structure ComparesAs {α : Type} [DecidableEq α] [LT α] [DecidableLT α] (a b : Value) (x y : α) : Prop where
  less : isLess? a b = some (decide (x < y))
  greater : isLess? b a = some (decide (y < x))
  equal : a.equal b = decide (x = y)

theorem Ordered.symm {a b : Value} (h : Ordered a b) : Ordered b a := h.imp And.symm And.symm

/-- Order is asked of values of one ordered kind only. -/
theorem isSome_isLess? {a b : Value} : (isLess? a b).isSome = true ↔ Ordered a b := by
  unfold isLess? Ordered
  split
  · simp [Value.isText, Value.isNumber]
  · rename_i hnone
    have htext : ¬ (a.isText = true ∧ b.isText = true) := by
      rintro ⟨ha, hb⟩
      cases a <;> cases ha
      cases b <;> cases hb
      exact hnone _ _ rfl rfl
    split
    · rename_i hnumber
      simp only [hnumber, true_and, true_or, iff_true]
      split <;> rfl
    · rename_i hnumber
      simp [hnumber, htext]

theorem compare_eq_of_equal {a b : Value} {answer : Bool} (h : a.equal b = answer) :
    compare .eq a b = .ok answer := congrArg Except.ok h

theorem compare_lt_of_isLess? {a b : Value} {answer : Bool} (h : isLess? a b = some answer) :
    compare .lt a b = .ok answer := by
  simp only [compare, compare.order, h]

/-! ### Numbers -/

/-- The shape of a number is its position. -/
theorem shape_of_isNumber {a : Value} (h : a.isNumber = true) : a.shape = .atom (.number a.rank?) := by
  cases a with
  | int n | float x => rfl
  | _ => cases h

/-- **A number at a position** of the number line. -/
structure StandsAt (v : Value) (x : Rank) : Prop where
  isNumber : v.isNumber = true
  rank : v.rank? = some x

theorem StandsAt.isNan {v : Value} {x : Rank} (h : StandsAt v x) : v.isNan = false := by
  cases v with
  | float d =>
    cases d with
    | nan => cases h.rank
    | _ => rfl
  | _ => rfl

/-- **A number other than not-a-number has a position.** -/
theorem exists_standsAt {v : Value} (h : v.isNumber = true) (hnan : v.isNan = false) : ∃ x, StandsAt v x := by
  cases v with
  | int n => exact ⟨_, rfl, rfl⟩
  | float d =>
    cases d with
    | nan => cases hnan
    | infinite s | finite s u hu => exact ⟨_, rfl, rfl⟩
  | _ => cases h

variable {a b : Value}

theorem isLess?_of_standsAt {x y : Rank} (ha : StandsAt a x) (hb : StandsAt b y) :
    isLess? a b = some (decide (x < y)) := by
  unfold isLess?
  split
  · cases ha.isNumber
  · rw [if_pos ⟨ha.isNumber, hb.isNumber⟩, ha.rank, hb.rank]

/-- **Numbers compare as their positions do**, whichever kinds they are of. -/
theorem comparesAs_of_standsAt {x y : Rank} (ha : StandsAt a x) (hb : StandsAt b y) : ComparesAs a b x y where
  less := isLess?_of_standsAt ha hb
  greater := isLess?_of_standsAt hb ha
  equal := by
    simp [Value.equal, shape_of_isNumber ha.isNumber, shape_of_isNumber hb.isNumber, ha.rank, hb.rank, ha.isNan]

/-! ### Strings -/

/-- **Strings compare code point by code point.** -/
theorem comparesAs_str (s t : Text) : ComparesAs (.str s) (.str t) s t where
  less := rfl
  greater := rfl
  equal := by simp [Value.equal, Value.shape, Value.isNan]

/-! ## Comparisons in an order -/

section Order

variable {α : Type} [DecidableEq α] [LT α] [DecidableLT α] {a b c : Value} {x y z : α}

/-- Each comparison, as it is in the order. -/
theorem ComparesAs.compare_eq (h : ComparesAs a b x y) :
    compare .eq a b = .ok (decide (x = y)) ∧ compare .lt a b = .ok (decide (x < y)) ∧
      compare .gt a b = .ok (decide (y < x)) ∧ compare .le a b = .ok (decide (x < y) || decide (x = y)) ∧
      compare .ge a b = .ok (decide (y < x) || decide (x = y)) := by
  simp [compare, compare.order, h.less, h.greater, h.equal]

variable [Std.Asymm (fun x y : α => x < y)] [Std.Trichotomous (fun x y : α => x < y)]

/-- **Exactly one of less, equal and greater.** -/
theorem count_trichotomy (x y : α) : [decide (x < y), decide (x = y), decide (y < x)].count true = 1 := by
  by_cases hlt : x < y
  · have hgt : ¬ y < x := Std.Asymm.asymm (r := fun x y : α => x < y) x y hlt
    have hne : x ≠ y := by
      rintro rfl
      exact hgt hlt
    simp [hlt, hgt, hne]
  · by_cases hgt : y < x
    · have hne : x ≠ y := by
        rintro rfl
        exact hlt hgt
      simp [hlt, hgt, hne]
    · obtain rfl : x = y := Std.Trichotomous.trichotomous (r := fun x y : α => x < y) x y hlt hgt
      simp [hlt]

end Order

section Laws

variable {a b c : Value}

/-- Values of one ordered kind are two numbers, each with a position unless it is not-a-number, or two strings. -/
theorem Ordered.cases (h : Ordered a b) (ha : a.isNan = false) (hb : b.isNan = false) :
    (∃ x y : Rank, StandsAt a x ∧ StandsAt b y) ∨ ∃ s t : Text, a = .str s ∧ b = .str t := by
  rcases h with ⟨hnumber, hnumber'⟩ | ⟨htext, htext'⟩
  · obtain ⟨x, hx⟩ := exists_standsAt hnumber ha
    obtain ⟨y, hy⟩ := exists_standsAt hnumber' hb
    exact .inl ⟨x, y, hx, hy⟩
  · cases a <;> cases htext
    cases b <;> cases htext'
    exact .inr ⟨_, _, rfl, rfl⟩

/-! ## Equality of any two values -/

/-- A dictionary with an entry has the shape of one. -/
theorem insertEntry_ne_atom (key : Text) (value rest : Shape) (k : Key) : rest.insertEntry key value ≠ .atom k := by
  unfold Shape.insertEntry
  split
  · split <;> exact nofun
  · exact nofun

/-- Only not-a-number has the shape of a number without a position. -/
theorem isNan_iff_shape {v : Value} : v.isNan = true ↔ v.shape = .atom (.number none) := by
  cases v with
  | float x =>
    cases x with
    | nan => simp [Value.isNan, Value.shape, Binary64.rank?]
    | infinite s | finite s u hu => simp [Value.isNan, Value.shape, Binary64.rank?]
  | none | bool _ | int _ | str _ => simp [Value.isNan, Value.shape, Value.rank?]
  | list items => cases items <;> simp [Value.isNan, Value.shape, Value.itemShapes]
  | dict entries =>
    cases entries with
    | nil => simp [Value.isNan, Value.shape, Value.entryShapes]
    | cons entry rest => simp [Value.isNan, Value.shape, Value.entryShapes, insertEntry_ne_atom]

/-- **Equality does not ask which value comes first.** -/
theorem equal_comm (a b : Value) : a.equal b = b.equal a := by
  unfold Value.equal
  by_cases h : a.shape = b.shape
  · have hnan : a.isNan = b.isNan := by
      rw [Bool.eq_iff_iff, isNan_iff_shape, isNan_iff_shape, h]
    rw [h, hnan]
  · rw [decide_eq_false h, decide_eq_false (Ne.symm h)]
    rfl

theorem ComparesAs.symm {α : Type} [DecidableEq α] [LT α] [DecidableLT α] {x y : α} (h : ComparesAs a b x y) :
    ComparesAs b a y x where
  less := h.greater
  greater := h.less
  equal := by
    rw [equal_comm, h.equal]
    exact decide_eq_decide.mpr eq_comm

theorem equal_trans (hab : a.equal b = true) (hbc : b.equal c = true) : a.equal c = true := by
  simp only [Value.equal, Bool.and_eq_true, decide_eq_true_eq] at hab hbc ⊢
  exact ⟨hab.1.trans hbc.1, hab.2⟩

/-! ## Not-a-number -/

theorem equal_of_isNan (h : a.isNan = true ∨ b.isNan = true) : a.equal b = false := by
  have hleft : ∀ {a b : Value}, a.isNan = true → a.equal b = false := by
    intro a b ha
    simp [Value.equal, ha]
  rcases h with ha | hb
  · exact hleft ha
  · rw [equal_comm]
    exact hleft hb

theorem isLess?_of_isNan (hordered : Ordered a b) (h : a.isNan = true ∨ b.isNan = true) :
    isLess? a b = some false := by
  have hrank : ∀ {v : Value}, v.isNan = true → v.isNumber = true ∧ v.isText = false ∧ v.rank? = none := by
    intro v hv
    cases v with
    | float x =>
      cases x with
      | nan => exact ⟨rfl, rfl, rfl⟩
      | infinite s | finite s u hu => cases hv
    | _ => cases hv
  have hnumbers : a.isNumber = true ∧ b.isNumber = true := by
    refine hordered.resolve_right fun htexts => ?_
    rcases h with ha | hb
    · exact absurd ((hrank ha).2.1.symm.trans htexts.1) Bool.false_ne_true
    · exact absurd ((hrank hb).2.1.symm.trans htexts.2) Bool.false_ne_true
  unfold isLess?
  split
  · cases hnumbers.1
  · rw [if_pos hnumbers]
    rcases h with ha | hb
    · rw [(hrank ha).2.2]
    · rw [(hrank hb).2.2]
      cases a.rank? <;> rfl

/-- **Not-a-number is equal to nothing, and in no order to any number.** -/
theorem compare_of_isNan (h : a.isNan = true ∨ b.isNan = true) :
    compare .eq a b = .ok false ∧ (Ordered a b → ∀ op ∈ orderings, compare op a b = .ok false) := by
  refine ⟨compare_eq_of_equal (equal_of_isNan h), fun hordered op hop => ?_⟩
  have hless := isLess?_of_isNan hordered h
  have hgreater := isLess?_of_isNan hordered.symm h.symm
  simp only [orderings, List.mem_cons, List.not_mem_nil, or_false] at hop
  rcases hop with rfl | rfl | rfl | rfl <;> simp [compare, compare.order, hless, hgreater, equal_of_isNan h]

/-! ## Refusals -/

/-- **A comparison refused** for the kinds of its operands. -/
def Mismatched (answer : Except RuntimeError Bool) : Prop := ∃ e, answer = .error e ∧ e.category = "TypeMismatch"

/-- **An order between values of other kinds is refused**, and the kinds are named. -/
theorem compare_of_not_ordered {op : CompareOp} (hop : op ∈ orderings) (h : ¬ Ordered a b) :
    compare op a b = .error (.unorderedKinds op a.kind b.kind) := by
  have hless : isLess? a b = none := by
    rw [← Option.not_isSome_iff_eq_none, isSome_isLess?]
    exact h
  have hgreater : isLess? b a = none := by
    rw [← Option.not_isSome_iff_eq_none, isSome_isLess?]
    exact fun hordered => h hordered.symm
  simp only [orderings, List.mem_cons, List.not_mem_nil, or_false] at hop
  rcases hop with rfl | rfl | rfl | rfl <;> simp [compare, compare.order, hless, hgreater]

/-- **An order between values of one kind is answered.** -/
theorem compare_of_ordered {op : CompareOp} (hop : op ∈ orderings) (h : Ordered a b) :
    ∃ answer, compare op a b = .ok answer := by
  obtain ⟨less, hless⟩ := Option.isSome_iff_exists.mp (isSome_isLess?.mpr h)
  obtain ⟨greater, hgreater⟩ := Option.isSome_iff_exists.mp (isSome_isLess?.mpr h.symm)
  simp only [orderings, List.mem_cons, List.not_mem_nil, or_false] at hop
  rcases hop with rfl | rfl | rfl | rfl <;> simp [compare, compare.order, hless, hgreater]

/-- **What is in an order** is of one ordered kind and not not-a-number. -/
theorem ordered_of_compare {op : CompareOp} (hop : op ∈ orderings) (h : compare op a b = .ok true) :
    Ordered a b ∧ a.isNan = false ∧ b.isNan = false := by
  have hordered : Ordered a b := by
    refine Classical.byContradiction fun hnot => ?_
    rw [compare_of_not_ordered hop hnot] at h
    cases h
  have hnan : ¬ (a.isNan = true ∨ b.isNan = true) := by
    intro hnan
    rw [(compare_of_isNan hnan).2 hordered op hop] at h
    cases h
  rw [not_or, Bool.not_eq_true, Bool.not_eq_true] at hnan
  exact ⟨hordered, hnan⟩

/-! ## Transitivity -/

/-- In an order behind the comparisons less and at most go on. -/
theorem ComparesAs.trans {α : Type} [DecidableEq α] [LT α] [DecidableLT α]
    [Trans (fun x y : α => x < y) (fun x y : α => x < y) (fun x y : α => x < y)] {x y z : α}
    (hab : ComparesAs a b x y) (hbc : ComparesAs b c y z) (hac : ComparesAs a c x z) {op : CompareOp}
    (hop : op = .lt ∨ op = .le) (h : compare op a b = .ok true) (h' : compare op b c = .ok true) :
    compare op a c = .ok true := by
  have htrans : ∀ {x y z : α}, x < y → y < z → x < z :=
    fun hxy hyz => Trans.trans (r := fun x y : α => x < y) (s := fun x y : α => x < y) hxy hyz
  rcases hop with rfl | rfl
  · rw [hab.compare_eq.2.1, Except.ok.injEq, decide_eq_true_eq] at h
    rw [hbc.compare_eq.2.1, Except.ok.injEq, decide_eq_true_eq] at h'
    rw [hac.compare_eq.2.1, decide_eq_true (htrans h h')]
  · rw [hab.compare_eq.2.2.2.1, Except.ok.injEq, Bool.or_eq_true, decide_eq_true_eq, decide_eq_true_eq] at h
    rw [hbc.compare_eq.2.2.2.1, Except.ok.injEq, Bool.or_eq_true, decide_eq_true_eq, decide_eq_true_eq] at h'
    rw [hac.compare_eq.2.2.2.1, Except.ok.injEq, Bool.or_eq_true, decide_eq_true_eq, decide_eq_true_eq]
    rcases h with hxy | rfl
    · rcases h' with hyz | rfl
      · exact .inl (htrans hxy hyz)
      · exact .inl hxy
    · exact h'

/-- **Equal, less and at most are transitive**, over values of any kinds. -/
theorem compare_trans {op : CompareOp} (hop : op ∈ [CompareOp.eq, .lt, .le]) (hab : compare op a b = .ok true)
    (hbc : compare op b c = .ok true) : compare op a c = .ok true := by
  simp only [List.mem_cons, List.not_mem_nil, or_false] at hop
  rcases hop with rfl | hop
  · exact compare_eq_of_equal (equal_trans (Except.ok.inj hab) (Except.ok.inj hbc))
  · have horderings : op ∈ orderings := by
      rcases hop with rfl | rfl <;> decide
    obtain ⟨hordered, hnan, hnan'⟩ := ordered_of_compare horderings hab
    obtain ⟨hordered', -, hnan''⟩ := ordered_of_compare horderings hbc
    rcases hordered.cases hnan hnan' with ⟨x, y, hx, hy⟩ | ⟨s, t, rfl, rfl⟩
    · rcases hordered'.cases hnan' hnan'' with ⟨-, z, -, hz⟩ | ⟨_, _, rfl, -⟩
      · have hac := comparesAs_of_standsAt hx hz
        exact (comparesAs_of_standsAt hx hy).trans (comparesAs_of_standsAt hy hz) hac hop hab hbc
      · cases hy.isNumber
    · rcases hordered'.cases hnan' hnan'' with ⟨_, _, ht, -⟩ | ⟨_, u, -, rfl⟩
      · cases ht.isNumber
      · exact (comparesAs_str s t).trans (comparesAs_str t u) (comparesAs_str s u) hop hab hbc

/-! ## The laws -/

/-- **The laws of comparison**, for any three values. -/
structure LawfulComparison (a b c : Value) : Prop where
  /-- Any two values are equal or not, whichever comes first; and unequal if they are not equal. -/
  equality : ∃ answer, compare .eq a b = .ok answer ∧ compare .eq b a = .ok answer ∧ compare .neq a b = .ok (!answer)
  /-- An order is answered for two values of one ordered kind, and refused for any others. -/
  answered : ∀ op ∈ orderings, Ordered a b →
    (∃ answer, compare op a b = .ok answer) ∧ ∃ answer, compare op b a = .ok answer
  refused : ∀ op ∈ orderings, ¬ Ordered a b → Mismatched (compare op a b) ∧ Mismatched (compare op b a)
  /-- Two numbers, or two strings, of which none is not-a-number: exactly one of less, equal and greater, from which
      the other comparisons follow. -/
  trichotomy : Ordered a b → a.isNan = false → b.isNan = false → ∃ less equal greater,
    [less, equal, greater].count true = 1 ∧
      compare .lt a b = .ok less ∧ compare .eq a b = .ok equal ∧ compare .gt a b = .ok greater ∧
      compare .le a b = .ok (less || equal) ∧ compare .ge a b = .ok (greater || equal) ∧
      compare .gt b a = .ok less ∧ compare .lt b a = .ok greater
  trans : ∀ op ∈ [CompareOp.eq, .lt, .le], compare op a b = .ok true → compare op b c = .ok true →
    compare op a c = .ok true
  /-- Not-a-number is equal to nothing, and in no order to a number. -/
  nan : a.isNan = true ∨ b.isNan = true →
    compare .eq a b = .ok false ∧ (Ordered a b → ∀ op ∈ orderings, compare op a b = .ok false)

/-- **Exactly one of less, equal and greater**, and what follows from which. -/
theorem ComparesAs.trichotomy {α : Type} [DecidableEq α] [LT α] [DecidableLT α]
    [Std.Asymm (fun x y : α => x < y)] [Std.Trichotomous (fun x y : α => x < y)] {x y : α} (h : ComparesAs a b x y) :
    ∃ less equal greater, [less, equal, greater].count true = 1 ∧
      compare .lt a b = .ok less ∧ compare .eq a b = .ok equal ∧ compare .gt a b = .ok greater ∧
      compare .le a b = .ok (less || equal) ∧ compare .ge a b = .ok (greater || equal) ∧
      compare .gt b a = .ok less ∧ compare .lt b a = .ok greater := by
  obtain ⟨hequal, hless, hgreater, hle, hge⟩ := h.compare_eq
  obtain ⟨-, hless', hgreater', -, -⟩ := h.symm.compare_eq
  exact ⟨_, _, _, count_trichotomy x y, hless, hequal, hgreater, hle, hge, hgreater', hless'⟩

/-- **Comparison is lawful**, whatever the values. -/
theorem comparison_lawful (a b c : Value) : LawfulComparison a b c where
  equality := by
    refine ⟨a.equal b, rfl, ?_, rfl⟩
    show Except.ok (b.equal a) = .ok (a.equal b)
    rw [equal_comm]
  answered op hop hordered := ⟨compare_of_ordered hop hordered, compare_of_ordered hop hordered.symm⟩
  refused op hop hnot :=
    ⟨⟨_, compare_of_not_ordered hop hnot, rfl⟩, ⟨_, compare_of_not_ordered hop (mt Ordered.symm hnot), rfl⟩⟩
  trichotomy hordered ha hb := by
    rcases hordered.cases ha hb with ⟨x, y, hx, hy⟩ | ⟨s, t, rfl, rfl⟩
    · exact (comparesAs_of_standsAt hx hy).trichotomy
    · exact (comparesAs_str s t).trichotomy
  trans op hop := compare_trans hop
  nan := compare_of_isNan

/-- **Neighbours that a rounded comparison would confuse**: the integer `2 ^ 53 + 1` has no double of its own, and
    still it is greater than the integer and the double `2 ^ 53`, which are equal. -/
theorem neighbours_compared :
    LawfulComparison (.float (Binary64.ofInt 9007199254740992)) (.int 9007199254740992) (.int 9007199254740993) ∧
      compare .eq (.float (Binary64.ofInt 9007199254740992)) (.int 9007199254740992) = .ok true ∧
      compare .lt (.int 9007199254740992) (.int 9007199254740993) = .ok true ∧
      compare .lt (.float (Binary64.ofInt 9007199254740992)) (.int 9007199254740993) = .ok true := by
  refine ⟨comparison_lawful _ _ _, ?_, ?_, ?_⟩
  · apply compare_eq_of_equal
    decide +kernel
  · apply compare_lt_of_isLess?
    decide +kernel
  · apply compare_lt_of_isLess?
    decide +kernel

end Laws

end Calculation

end LineaLang
