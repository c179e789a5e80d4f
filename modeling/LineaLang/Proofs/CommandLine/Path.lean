import LineaLang.CommandLine.Path

/-!
# `LineaLang.Proofs.CommandLine.Path` — the path of a file beside another

The plain form of a path is the marks of its root and its parts with one mark between neighbours. Taking that
apart gives the same marks and the same parts, so a plain form is its own. A file named after another has a
part of its own: the last part with the ending, or the ending alone where nothing is left of the path.

## Contents

* `Path.parts_join` — joined parts come apart again.
* `Path.plain_root_join`, `Path.plain_withEnding` — paths that are in their plain form.
-/

namespace LineaLang

theorem Text.join_append (separator : Text) (front : List Text) (last ending : Text) :
    Text.join separator (front ++ [last]) ++ ending = Text.join separator (front ++ [last ++ ending]) := by
  induction front with
  | nil => rfl
  | cons part rest ih =>
    cases rest with
    | nil => simp [join]
    | cons next rest =>
      simp only [List.cons_append, join] at ih ⊢
      rw [List.append_assoc, ih]

namespace Path

/-- **A part of a path** that names something. -/
def IsPart (part : Text) : Prop := isProper part = true ∧ mark ∉ part

theorem parts_of_not_mem {text : Text} (h : mark ∉ text) : parts text = [text] := by
  induction text with
  | nil => rfl
  | cons c rest ih =>
    rw [List.mem_cons, not_or] at h
    rw [parts, if_neg (Ne.symm h.1), ih h.2]

theorem parts_append {a : Text} (h : mark ∉ a) (b : Text) : parts (a ++ mark :: b) = a :: parts b := by
  induction a with
  | nil => rw [List.nil_append, parts, if_pos rfl]
  | cons c rest ih =>
    rw [List.mem_cons, not_or] at h
    rw [List.cons_append, parts, if_neg (Ne.symm h.1), ih h.2]

/-- **Joined parts come apart again.** -/
theorem parts_join {names : List Text} (hne : names ≠ []) (h : ∀ name ∈ names, mark ∉ name) :
    parts (Text.join [mark] names) = names := by
  induction names with
  | nil => exact absurd rfl hne
  | cons name rest ih =>
    rw [List.forall_mem_cons] at h
    cases rest with
    | nil => exact parts_of_not_mem h.1
    | cons next rest =>
      rw [Text.join, List.append_assoc, List.singleton_append, parts_append h.1,
        ih (List.cons_ne_nil next rest) h.2]

theorem not_mem_of_mem_parts {path part : Text} (h : part ∈ parts path) : mark ∉ part := by
  induction path generalizing part with
  | nil =>
    obtain rfl := List.mem_singleton.mp h
    exact List.not_mem_nil
  | cons c rest ih =>
    rw [parts] at h
    split at h
    · rcases List.mem_cons.mp h with rfl | h
      · exact List.not_mem_nil
      · exact ih h
    · rename_i hc
      split at h
      · obtain rfl := List.mem_singleton.mp h
        simpa using Ne.symm hc
      · rename_i first more hrest
        rw [hrest] at ih
        rcases List.mem_cons.mp h with rfl | h
        · rw [List.mem_cons, not_or]
          exact ⟨Ne.symm hc, ih List.mem_cons_self⟩
        · exact ih (List.mem_cons_of_mem _ h)

/-- The marks in front of a path are none, one or two. -/
theorem root_eq (path : Text) : root path = [] ∨ root path = [mark] ∨ root path = [mark, mark] := by
  unfold root
  split
  · exact .inl rfl
  · exact .inr (.inr rfl)
  · exact .inr (.inl rfl)

/-- A part starts with no mark, and so do joined parts. -/
theorem exists_join_eq {names : List Text} (hne : names ≠ []) (h : ∀ name ∈ names, IsPart name) :
    ∃ c rest, Text.join [mark] names = c :: rest ∧ c ≠ mark := by
  obtain ⟨name, more, rfl⟩ := List.exists_cons_of_ne_nil hne
  obtain ⟨hproper, hmark⟩ := h name List.mem_cons_self
  cases name with
  | nil => cases hproper
  | cons c rest =>
    rw [List.mem_cons, not_or] at hmark
    cases more with
    | nil => exact ⟨c, rest, rfl, Ne.symm hmark.1⟩
    | cons next more => exact ⟨c, rest ++ [mark] ++ Text.join [mark] (next :: more), rfl, Ne.symm hmark.1⟩

/-- **A path of marks and parts is in its plain form.** -/
theorem plain_root_join (path : Text) {names : List Text} (hne : names ≠ []) (h : ∀ name ∈ names, IsPart name) :
    plain (root path ++ Text.join [mark] names) = root path ++ Text.join [mark] names := by
  have hparts := parts_join hne fun name hname => (h name hname).2
  have hfilter : names.filter isProper = names := List.filter_eq_self.mpr fun name hname => (h name hname).1
  obtain ⟨c, rest, hjoin, hc⟩ := exists_join_eq hne h
  have hroot : root (root path ++ Text.join [mark] names) = root path := by
    rw [hjoin]
    rcases root_eq path with hr | hr | hr <;> rw [hr] <;> simp [root, hc]
  have hproper : (parts (root path ++ Text.join [mark] names)).filter isProper = names := by
    rcases root_eq path with hr | hr | hr <;> rw [hr]
    · rw [List.nil_append, hparts, hfilter]
    · rw [List.singleton_append, parts, if_pos rfl, hparts, List.filter_cons_of_neg (by decide), hfilter]
    · rw [List.cons_append, List.singleton_append, parts, if_pos rfl, parts, if_pos rfl, hparts,
        List.filter_cons_of_neg (by decide), List.filter_cons_of_neg (by decide), hfilter]
  rw [plain, hroot, hproper, hjoin]
  simp

/-- **The path of a file named after another is in its plain form.** -/
theorem plain_withEnding (path : Text) {ending : Text} (hlong : 1 < ending.length) (hmark : mark ∉ ending) :
    plain (withEnding path ending) = withEnding path ending := by
  have hpart : ∀ front : Text, mark ∉ front → IsPart (front ++ ending) := by
    intro front hfront
    refine ⟨?_, ?_⟩
    · have hne : front ++ ending ≠ Text.ofString "." := by
        intro heq
        have hlength := congrArg List.length heq
        have hone : (Text.ofString ".").length = 1 := by decide
        rw [List.length_append, hone] at hlength
        omega
      have hnil : ending ≠ [] := List.ne_nil_of_length_pos (Nat.lt_trans Nat.zero_lt_one hlong)
      simp [isProper, hnil, hne]
    · simp [hfront, hmark]
  -- The names in the path, the last of them with the ending.
  have hform : ∃ (base : Text) (names : List Text), names ≠ [] ∧ (∀ name ∈ names, IsPart name) ∧
      withEnding path ending = root base ++ Text.join [mark] names := by
    rw [withEnding, plain]
    generalize hnames : (parts path).filter isProper = names
    have hparts : ∀ name ∈ names, IsPart name := by
      intro name hname
      rw [← hnames, List.mem_filter] at hname
      exact ⟨hname.2, not_mem_of_mem_parts hname.1⟩
    -- Without a name the ending becomes one, behind the mark of the place or the root.
    rcases List.eq_nil_or_concat names with rfl | ⟨front, last, rfl⟩
    · by_cases hroot : root path = []
      · refine ⟨[], [Text.ofString "." ++ ending], List.cons_ne_nil _ _, ?_, ?_⟩
        · exact List.forall_mem_singleton.mpr (hpart _ (by decide))
        · rw [hroot]
          rfl
      · refine ⟨path, [ending], List.cons_ne_nil _ _, ?_, ?_⟩
        · exact List.forall_mem_singleton.mpr (hpart [] List.not_mem_nil)
        · simp [Text.join, hroot]
    · simp only [List.concat_eq_append] at hparts ⊢
      have hlast := hparts last (by simp)
      refine ⟨path, front ++ [last ++ ending], by simp, ?_, ?_⟩
      · intro name hname
        rcases List.mem_append.mp hname with hname | hname
        · exact hparts name (by simp [hname])
        · obtain rfl := List.mem_singleton.mp hname
          exact hpart last hlast.2
      · obtain ⟨c, rest, hjoin, -⟩ := exists_join_eq (by simp) hparts
        have hne : (root path ++ Text.join [mark] (front ++ [last])).isEmpty = false := by
          rw [hjoin]
          simp
        rw [hne]
        simp only [Bool.false_eq_true, if_false]
        rw [List.append_assoc, Text.join_append]
  obtain ⟨base, names, hne, hnames, heq⟩ := hform
  rw [heq, plain_root_join base hne hnames]

end Path

end LineaLang
