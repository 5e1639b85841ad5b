import SnippetReview.Text.Case

set_option autoImplicit false

namespace SnippetReview.Text

theorem of_ascii {p : Char → Prop} (holds : ∀ n : Fin 128, p (Char.ofNat n)) {c : Char} (ascii : c.toNat < 128) : p c := by
  have here := holds ⟨c.toNat, ascii⟩
  rwa [Char.ofNat_toNat] at here

theorem ascii_lower_settled {c : Char} (ascii : c.toNat < 128) :
    c.toLower.toNat < 128 ∧ c.toLower.toLower = c.toLower ∧ (c.toLower = '_' → c = '_') :=
  of_ascii (p := fun c => c.toLower.toNat < 128 ∧ c.toLower.toLower = c.toLower ∧ (c.toLower = '_' → c = '_'))
    (by decide) ascii

theorem ascii_upper {c : Char} (ascii : c.toNat < 128) :
    c.toUpper.toNat < 128 ∧ c.toUpper.toLower = c.toLower ∧ (c.toUpper = '_' → c = '_') :=
  of_ascii (p := fun c => c.toUpper.toNat < 128 ∧ c.toUpper.toLower = c.toLower ∧ (c.toUpper = '_' → c = '_'))
    (by decide) ascii

theorem to_upper_high {c : Char} (high : ¬ c.toNat < 128) : c.toUpper = c := by
  refine dif_neg fun small => high ?_
  have bound : c.val.toNat ≤ 'z'.val.toNat := small.2
  exact Nat.lt_of_le_of_lt bound (by decide)

theorem to_lower_high {c : Char} (high : ¬ c.toNat < 128) : c.toLower = c := by
  refine dif_neg fun small => high ?_
  have bound : c.val.toNat ≤ 'Z'.val.toNat := small.2
  exact Nat.lt_of_le_of_lt bound (by decide)

theorem lower_char_ascii {c : Char} (ascii : c.toNat < 128) : lowerChar c = [c.toLower] := if_pos ascii

def Shift.low (s : Shift) : Nat := (s.stretch.first + s.offset).toNat

def Shift.high (s : Shift) : Nat := (s.stretch.last + s.offset).toNat

-- Whether no code point that the shift leads to lies in a stretch: it leads past the stretch, or between the
-- code points of one that takes every other.
def Shift.avoids (s : Shift) (t : Stretch) : Bool :=
  s.high.blt t.first || t.last.blt s.low
    || (t.step == 2 && (s.stretch.step == 2 || s.stretch.first == s.stretch.last) && (s.low + t.first) % 2 == 1)

-- Whether what the shift leads to is in lower case: small letters, or code points beyond the first 128 that
-- no shift moves.
def Shift.settles (s : Shift) : Bool :=
  (128 ≤ s.low && s.avoids ⟨0x130, 0x130, 1⟩ && lowerShifts.toList.all fun t => s.avoids t.stretch)
    || (s.stretch.first == s.stretch.last && s.low == 'k'.toNat)

theorem lower_shifts_settle : lowerShifts.toList.all Shift.settles = true := by decide +kernel

theorem stretch_contains {t : Stretch} {code : Nat} (inside : t.contains code = true) :
    t.first ≤ code ∧ code ≤ t.last ∧ (code - t.first) % t.step = 0 := by
  unfold Stretch.contains at inside
  simp only [Bool.and_eq_true, decide_eq_true_eq, beq_iff_eq] at inside
  exact ⟨inside.1.1, inside.1.2, inside.2⟩

theorem not_contains_of_avoids {s : Shift} {t : Stretch} {code : Nat} (positive : 0 < s.low)
    (inside : s.stretch.contains code = true) (avoids : s.avoids t = true) :
    t.contains (code + s.offset).toNat = false := by
  obtain ⟨above, below, step⟩ := stretch_contains inside
  unfold Shift.avoids Shift.high at avoids
  unfold Shift.low at avoids positive
  simp only [Bool.or_eq_true, Bool.and_eq_true, Nat.blt_eq, beq_iff_eq] at avoids
  refine Bool.eq_false_iff.mpr fun contained => ?_
  obtain ⟨above', below', step'⟩ := stretch_contains contained
  rcases avoids with (before | after) | ⟨⟨stepT, single⟩, odd⟩
  · omega
  · omega
  · rw [stepT] at step'
    rcases single with stepS | only
    · rw [stepS] at step
      omega
    · omega

-- The table is searched by halving; whichever shift it finds is one of its own.
theorem shifted_cases (c : Char) :
    shifted lowerShifts c = c ∨ ∃ s ∈ lowerShifts.toList,
      s.stretch.contains c.toNat = true ∧ shifted lowerShifts c = Char.ofNat (c.toNat + s.offset).toNat := by
  unfold shifted
  split
  case h_1 s found =>
    by_cases inside : s.stretch.contains c.toNat = true
    · rw [if_pos inside]
      exact .inr ⟨s, Array.mem_toList_iff.mpr (Array.mem_of_getElem? found), inside, rfl⟩
    · rw [if_neg inside]
      exact .inl rfl
  case h_2 => exact .inl rfl

theorem to_nat_of_nat (n : Nat) : (Char.ofNat n).toNat = n ∨ Char.ofNat n = '\u0000' := by
  by_cases valid : n.isValidChar
  · exact .inl (by rw [Char.ofNat, dif_pos valid]; rfl)
  · exact .inr (by rw [Char.ofNat, dif_neg valid]; rfl)

theorem shifted_settled {s : Shift} (member : s ∈ lowerShifts.toList) {code : Nat}
    (inside : s.stretch.contains code = true) :
    lowerChar (Char.ofNat (code + s.offset).toNat) = [Char.ofNat (code + s.offset).toNat] ∧
      Char.ofNat (code + s.offset).toNat ≠ '_' := by
  have settles := List.all_eq_true.mp lower_shifts_settle s member
  generalize targetEq : Char.ofNat (code + s.offset).toNat = target
  rcases to_nat_of_nat (code + s.offset).toNat with number | zero
  · rw [targetEq] at number
    obtain ⟨above, below, _⟩ := stretch_contains inside
    unfold Shift.settles at settles
    simp only [Bool.or_eq_true, Bool.and_eq_true, decide_eq_true_eq, beq_iff_eq, List.all_eq_true] at settles
    rcases settles with ⟨⟨large, undotted⟩, apart⟩ | ⟨only, small⟩
    · have positive : 0 < s.low := by omega
      have high : ¬ target.toNat < 128 := by
        unfold Shift.low at large
        omega
      have dotless : ¬ (target == '\u0130') = true := by
        intro same
        have outside := not_contains_of_avoids positive inside undotted
        rw [← number, beq_iff_eq.mp same] at outside
        exact absurd outside (by decide)
      have fixed : shifted lowerShifts target = target := by
        rcases shifted_cases target with fixed | ⟨t, memberT, insideT, _⟩
        · exact fixed
        · rw [number, not_contains_of_avoids positive inside (apart t memberT)] at insideT
          exact absurd insideT Bool.false_ne_true
      refine ⟨by rw [lowerChar, if_neg high, if_neg dotless, fixed], fun mark => high ?_⟩
      rw [mark]
      decide
    · have code_eq : target.toNat = 'k'.toNat := by
        unfold Shift.low at small
        omega
      rw [Char.toNat_inj.mp code_eq]
      decide
  · rw [targetEq] at zero
    rw [zero]
    decide

theorem lower_settled {c d : Char} (member : d ∈ lowerChar c) : lowerChar d = [d] ∧ (d = '_' → c = '_') := by
  by_cases ascii : c.toNat < 128
  · obtain ⟨small, again, mark⟩ := ascii_lower_settled ascii
    rw [lower_char_ascii ascii, List.mem_singleton] at member
    rw [member, lower_char_ascii small, again]
    exact ⟨rfl, mark⟩
  · unfold lowerChar at member
    rw [if_neg ascii] at member
    by_cases dotted : (c == '\u0130') = true
    · rw [if_pos dotted] at member
      have settled : ∀ d ∈ ['i', '\u0307'], lowerChar d = [d] ∧ d ≠ '_' := by decide +kernel
      exact ⟨(settled d member).1, fun mark => absurd mark (settled d member).2⟩
    · rw [if_neg dotted, List.mem_singleton] at member
      rcases shifted_cases c with fixed | ⟨s, memberS, inside, moved⟩
      · rw [member, fixed]
        exact ⟨by rw [lowerChar, if_neg ascii, if_neg dotted, fixed], id⟩
      · rw [member, moved]
        have settled := shifted_settled memberS inside
        exact ⟨settled.1, fun mark => absurd mark settled.2⟩

theorem lower_char_lower (c : Char) : (lowerChar c).flatMap lowerChar = lowerChar c := by
  have settled : ∀ ds : List Char, (∀ d ∈ ds, lowerChar d = [d]) → ds.flatMap lowerChar = ds := by
    intro ds each
    induction ds with
    | nil => rfl
    | cons d rest ih =>
      rw [List.flatMap_cons, each d List.mem_cons_self, ih fun e member => each e (List.mem_cons_of_mem d member)]
      rfl
  exact settled (lowerChar c) fun d member => (lower_settled member).1

theorem mark_mem_lower {c : Char} (member : '_' ∈ lowerChar c) : c = '_' := (lower_settled member).2 rfl

end SnippetReview.Text
