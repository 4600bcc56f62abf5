import Mathlib.Order.Monotone.Basic
import SpeechMarkup.Proofs.Signed
import SpeechMarkup.Rule.Grammar

/-! Ranges of numbers by the exact values of the doubles in them. The order of the row of magnitudes is the order of
their values, so a range that is given by two doubles holds exactly the doubles between two rationals. The lower end of
the pitch range is no double: the range holds what lies above `-33.3`, as no double lies between that and its end. -/

namespace SpeechMarkup

namespace Magnitude

theorem size_strictMono : StrictMono size :=
  strictMono_nat_of_lt_succ size_lt_size_succ

theorem units_lt_iff (a b : Magnitude) : a.units < b.units ↔ a.rank < b.rank :=
  size_strictMono.lt_iff_lt

theorem next_le_units {a b : Magnitude} (h : a.rank < b.rank) : size (a.rank + 1) ≤ b.units :=
  size_strictMono.monotone (Nat.succ_le_of_lt h)

/-- The number that a magnitude stands for. Infinity counts as the number that would come next. -/
def value (m : Magnitude) : ℚ :=
  (m.units : ℚ) / unitsPerOne

theorem unitsPerOne_pos : (0 : ℚ) < unitsPerOne := by
  have : 0 < unitsPerOne := by decide +kernel
  exact_mod_cast this

theorem value_lt_iff (a b : Magnitude) : a.value < b.value ↔ a.rank < b.rank := by
  rw [value, value, div_lt_div_iff_of_pos_right unitsPerOne_pos, Nat.cast_lt, units_lt_iff]

theorem value_nonneg (m : Magnitude) : 0 ≤ m.value :=
  div_nonneg (Nat.cast_nonneg _) unitsPerOne_pos.le

theorem value_zero : zero.value = 0 := by
  have : zero.units = 0 := by decide
  rw [value, this, Nat.cast_zero, zero_div]

theorem value_pos_iff (m : Magnitude) : 0 < m.value ↔ 0 < m.rank := by
  have h := value_lt_iff zero m
  rwa [value_zero] at h

theorem lt_value_infinity : 2 ^ 53 < infinity.value := by
  have h : 9007199254740992 * unitsPerOne < infinity.units := by decide +kernel
  rw [value, lt_div_iff₀ unitsPerOne_pos]
  norm_num
  exact_mod_cast h

theorem finite_of_le {lo hi : ℚ} (below : -2 ^ 53 ≤ lo) (above : hi ≤ 2 ^ 53) :
    -infinity.value < lo ∧ hi < infinity.value :=
  ⟨(neg_lt_neg lt_value_infinity).trans_le below, above.trans_lt lt_value_infinity⟩

theorem value_of_units {m : Magnitude} {n : Nat} (h : m.units = n * unitsPerOne) : m.value = n := by
  rw [value, h, Nat.cast_mul, mul_div_cancel_right₀ _ unitsPerOne_pos.ne']

theorem value_of_units_mul {m : Magnitude} {parts count : Nat} (some : 0 < parts)
    (h : m.units * parts = count * unitsPerOne) : m.value = count / parts := by
  have units : (m.units : ℚ) * parts = count * unitsPerOne := by exact_mod_cast h
  rw [value, div_eq_div_iff unitsPerOne_pos.ne' (Nat.cast_ne_zero.2 some.ne'), units]

end Magnitude

namespace Binary64

def value? : Binary64 → Option ℚ
  | nan => none
  | signed false m => some m.value
  | signed true m => some (-m.value)

def Between (lo hi : ℚ) (x : Binary64) : Prop :=
  ∃ q, x.value? = some q ∧ lo ≤ q ∧ q ≤ hi

theorem exists_value?_signed (negative : Bool) (m : Magnitude) : ∃ q, (signed negative m).value? = some q := by
  cases negative <;> exact ⟨_, rfl⟩

theorem Between.finite {lo hi : ℚ} {x : Binary64} (h : x.Between lo hi) (least : -Magnitude.infinity.value < lo)
    (greatest : hi < Magnitude.infinity.value) : ∃ negative m, x = signed negative m ∧ m ≠ .infinity := by
  obtain ⟨q, hq, above, below⟩ := h
  obtain _ | ⟨_ | _, m⟩ := x
  · cases hq
  · cases hq
    exact ⟨false, m, rfl, fun same => absurd (same ▸ below) (not_le.2 greatest)⟩
  · cases hq
    exact ⟨true, m, rfl, fun same => absurd (same ▸ above) (not_le.2 least)⟩

theorem lt_iff {x y : Binary64} {p q : ℚ} (hx : x.value? = some p) (hy : y.value? = some q) :
    x.lt y = true ↔ p < q := by
  obtain _ | ⟨_ | _, a⟩ := x
  · cases hx
  all_goals
    obtain _ | ⟨_ | _, b⟩ := y
    · cases hy
    all_goals
      cases hx
      cases hy
      have order := Magnitude.value_lt_iff a b
      have reverse := Magnitude.value_lt_iff b a
      have first := Magnitude.value_pos_iff a
      have second := Magnitude.value_pos_iff b
      have nonneg := a.value_nonneg
      have nonneg' := b.value_nonneg
      simp only [lt, place?, decide_eq_true_eq, neg_lt_neg_iff, order, reverse, Nat.cast_lt]
  · constructor
    · intro h
      omega
    · intro h
      linarith
  · constructor
    · intro h
      by_cases positive : 0 < a.rank
      · linarith [first.2 positive]
      · linarith [second.2 (by omega)]
    · intro h
      by_cases positive : 0 < a.rank
      · omega
      · have := second.1 (by
          have : ¬ 0 < a.value := fun h => positive (first.1 h)
          linarith)
        omega

theorem lt_eq_false_iff {x y : Binary64} {p q : ℚ} (hx : x.value? = some p) (hy : y.value? = some q) :
    x.lt y = false ↔ q ≤ p := by
  rw [← not_lt, ← lt_iff hx hy, Bool.not_eq_true]

end Binary64

namespace NumberRange

/-- A range holds exactly the doubles between two numbers, its ends and its default among them but no infinity. -/
structure Spans (range : NumberRange) (lo hi : ℚ) : Prop where
  finite : -Magnitude.infinity.value < lo ∧ hi < Magnitude.infinity.value
  below : ∀ {x : Binary64} {q : ℚ}, x.value? = some q → (x.lt range.least = false ↔ lo ≤ q)
  above : ∀ {x : Binary64} {q : ℚ}, x.value? = some q → (range.greatest.lt x = false ↔ q ≤ hi)
  least : range.least.Between lo hi
  greatest : range.greatest.Between lo hi
  fallback : range.fallback.Between lo hi

variable {range : NumberRange} {lo hi : ℚ}

theorem Spans.inRange_judge (spans : range.Spans lo hi) {text : String} {x : Binary64} {q : ℚ}
    (front : Leading.number? text.toList = some x) (hq : x.value? = some q) :
    (range.judge text).inRange = true ↔ lo ≤ q ∧ q ≤ hi := by
  rw [← spans.below hq, ← spans.above hq]
  cases below : x.lt range.least <;> cases above : range.greatest.lt x <;> simp [judge, front, below, above]

theorem exists_value?_number? {cs : List Char} {x : Binary64} (h : Leading.number? cs = some x) :
    ∃ q, x.value? = some q := by
  simp only [Leading.number?] at h
  split at h
  · cases h
  · cases h
    exact Binary64.exists_value?_signed _ _

theorem Spans.between_judge (spans : range.Spans lo hi) (text : String) : (range.judge text).value.Between lo hi := by
  unfold judge
  split
  · exact spans.fallback
  · next x front =>
    obtain ⟨q, hq⟩ := exists_value?_number? front
    split
    · exact spans.least
    · next below =>
      split
      · exact spans.greatest
      · next above =>
        exact ⟨q, hq, (spans.below hq).1 (by simpa using below), (spans.above hq).1 (by simpa using above)⟩

theorem spans_of_value? {default : ℚ} (finite : -2 ^ 53 ≤ lo ∧ hi ≤ 2 ^ 53)
    (least : range.least.value? = some lo) (greatest : range.greatest.value? = some hi)
    (fallback : range.fallback.value? = some default) (above : lo ≤ default) (below : default ≤ hi) :
    range.Spans lo hi where
  finite := Magnitude.finite_of_le finite.1 finite.2
  below hq := Binary64.lt_eq_false_iff hq least
  above hq := Binary64.lt_eq_false_iff greatest hq
  least := ⟨lo, least, le_refl lo, above.trans below⟩
  greatest := ⟨hi, greatest, above.trans below, le_refl hi⟩
  fallback := ⟨default, fallback, above, below⟩

end NumberRange

namespace Grammar

theorem value?_number {n : Nat} (h : (Magnitude.ofNat n).units = n * Magnitude.unitsPerOne) :
    (number n).value? = some (n : ℚ) :=
  congrArg some (Magnitude.value_of_units h)

theorem value?_neg_number {n : Nat} (h : (Magnitude.ofNat n).units = n * Magnitude.unitsPerOne) :
    (number n).neg.value? = some (-n : ℚ) :=
  congrArg (fun q => some (-q)) (Magnitude.value_of_units h)

theorem value?_zero : (number 0).value? = some 0 := by
  have h := value?_number (n := 0) (by decide +kernel)
  rwa [Nat.cast_zero] at h

theorem speeds_spans : speeds.Spans 50 200 :=
  NumberRange.spans_of_value? (by norm_num) (value?_number (by decide +kernel)) (value?_number (by decide +kernel))
    (value?_number (n := 100) (by decide +kernel)) (by norm_num) (by norm_num)

theorem soundLevels_spans : soundLevels.Spans (-40) 40 :=
  NumberRange.spans_of_value? (by norm_num) (value?_neg_number (by decide +kernel)) (value?_number (by decide +kernel))
    (value?_number (n := 0) (by decide +kernel)) (by norm_num) (by norm_num)

theorem speechRates_spans : speechRates.Spans 20 (2 ^ 53 - 1) := by
  have last : (2 ^ 53 - 1 : ℚ) = 9007199254740991 := by norm_num
  rw [last]
  exact NumberRange.spans_of_value? (by norm_num) (value?_number (by decide +kernel))
    (value?_number (by decide +kernel)) (value?_number (n := 100) (by decide +kernel)) (by norm_num) (by norm_num)

/-- The magnitude nearest to `33.3`, which lies a little below it. -/
def pitchFloor : Magnitude :=
  (Decimal.mk 333 (-1)).toMagnitude

theorem pitchFloor_le : pitchFloor.value ≤ 333 / 10 := by
  have h : pitchFloor.units * 10 ≤ 333 * Magnitude.unitsPerOne := by decide +kernel
  rw [Magnitude.value, div_le_div_iff₀ Magnitude.unitsPerOne_pos (by norm_num)]
  exact_mod_cast h

theorem rank_le_pitchFloor {m : Magnitude} : m.rank ≤ pitchFloor.rank ↔ m.value ≤ 333 / 10 := by
  constructor
  · intro h
    have order := (not_congr (Magnitude.value_lt_iff pitchFloor m)).2 (Nat.not_lt.2 h)
    exact (not_lt.1 order).trans pitchFloor_le
  · intro h
    by_contra above
    have next := Magnitude.next_le_units (Nat.not_le.1 above)
    have past : 333 * Magnitude.unitsPerOne < Magnitude.size (pitchFloor.rank + 1) * 10 := by decide +kernel
    rw [Magnitude.value, div_le_div_iff₀ Magnitude.unitsPerOne_pos (by norm_num)] at h
    have bound : m.units * 10 ≤ 333 * Magnitude.unitsPerOne := by exact_mod_cast h
    omega

theorem pitchChanges_spans : pitchChanges.Spans (-333 / 10) 50 where
  finite := Magnitude.finite_of_le (by norm_num) (by norm_num)
  below {x q} hq := by
    have least : pitchChanges.least.value? = some (-pitchFloor.value) := rfl
    rw [Binary64.lt_eq_false_iff hq least]
    obtain _ | ⟨_ | _, m⟩ := x
    · cases hq
    · cases hq
      have := m.value_nonneg
      have := pitchFloor.value_nonneg
      constructor <;> intro <;> linarith
    · cases hq
      have order := Magnitude.value_lt_iff pitchFloor m
      have near := rank_le_pitchFloor (m := m)
      rw [neg_le_neg_iff, ← not_lt, order, not_lt, near]
      constructor <;> intro <;> linarith
  above hq := Binary64.lt_eq_false_iff (value?_number (by decide +kernel)) hq
  least := ⟨-pitchFloor.value, rfl, by linarith [pitchFloor_le], by linarith [pitchFloor.value_nonneg]⟩
  greatest := ⟨50, value?_number (by decide +kernel), by norm_num, by norm_num⟩
  fallback := ⟨0, value?_zero, by norm_num, by norm_num⟩

end Grammar

end SpeechMarkup
