import Mathlib.Algebra.Order.Field.Power
import SpeechMarkup.Proofs.FrontNumber
import SpeechMarkup.Proofs.NumberRange

/-! Rounding to doubles. A number is rounded to the magnitude nearest to it, and of two equally near ones to the one of
even rank; infinity takes part as the number that would come next. There is one such magnitude for every number. What is
read from digits is the one for the exact number that they spell, whatever their count and the size of the exponent. -/

namespace SpeechMarkup

namespace Magnitude

section Distances

variable {a b q : ℚ}

theorem nearer_iff_of_lt (less : a < b) : |a - q| ≤ |b - q| ↔ 2 * q ≤ a + b := by
  rcases abs_cases (a - q) with ⟨ha, _⟩ | ⟨ha, _⟩ <;> rcases abs_cases (b - q) with ⟨hb, _⟩ | ⟨hb, _⟩ <;>
    rw [ha, hb] <;> constructor <;> intro <;> linarith

theorem nearer_iff_of_gt (greater : b < a) : |a - q| ≤ |b - q| ↔ a + b ≤ 2 * q := by
  rcases abs_cases (a - q) with ⟨ha, _⟩ | ⟨ha, _⟩ <;> rcases abs_cases (b - q) with ⟨hb, _⟩ | ⟨hb, _⟩ <;>
    rw [ha, hb] <;> constructor <;> intro <;> linarith

theorem equally_near_iff (less : a < b) : |a - q| = |b - q| ↔ 2 * q = a + b := by
  rw [le_antisymm_iff, nearer_iff_of_lt less, nearer_iff_of_gt less, add_comm b, ← le_antisymm_iff]

end Distances

/-- The magnitude that a number is rounded to. Infinity counts as the number that would come next, so it is taken from
halfway between the last finite magnitude and that number on. -/
structure NearestTo (m : Magnitude) (q : ℚ) : Prop where
  nearest : ∀ other : Magnitude, |m.value - q| ≤ |other.value - q|
  even : ∀ other : Magnitude, other ≠ m → |other.value - q| = |m.value - q| → m.rank % 2 = 0

theorem value_le_iff (a b : Magnitude) : a.value ≤ b.value ↔ a.rank ≤ b.rank := by
  rw [← not_lt, value_lt_iff, not_lt]

theorem ext_rank {a b : Magnitude} (h : a.rank = b.rank) : a = b := by
  obtain ⟨rank, le⟩ := a
  obtain ⟨other, le'⟩ := b
  cases h
  rfl

theorem ext_value {a b : Magnitude} (h : a.value = b.value) : a = b :=
  ext_rank (le_antisymm ((value_le_iff a b).1 h.le) ((value_le_iff b a).1 h.ge))

/-- Two magnitudes of even rank have another one between them, so they are not both nearest. -/
theorem NearestTo.not_lt {a b : Magnitude} {q : ℚ} (ha : a.NearestTo q) (hb : b.NearestTo q) : ¬ a.rank < b.rank := by
  intro below
  have apart : b ≠ a := fun same => below.ne (congrArg rank same).symm
  have equal : |b.value - q| = |a.value - q| := le_antisymm (hb.nearest a) (ha.nearest b)
  have evenBelow := ha.even b apart equal
  have evenAbove := hb.even a apart.symm equal.symm
  have room : a.rank + 1 < b.rank := by omega
  let between : Magnitude := ⟨a.rank + 1, room.le.trans b.rank_le⟩
  have low : a.value < between.value := (value_lt_iff a between).2 (Nat.lt_succ_self _)
  have high : between.value < b.value := (value_lt_iff between b).2 room
  rcases abs_eq_abs.1 equal with same | opposite
  · linarith
  · -- The number lies in the middle, so what stands between is nearer to it.
    have middle : |a.value - q| = q - a.value := by
      rw [abs_of_nonpos (by linarith), neg_sub]
    have nearer : |between.value - q| < |a.value - q| := by
      rw [middle, abs_lt]
      constructor <;> linarith
    exact absurd (ha.nearest between) (not_le.2 nearer)

theorem NearestTo.unique {a b : Magnitude} {q : ℚ} (ha : a.NearestTo q) (hb : b.NearestTo q) : a = b :=
  ext_rank (Nat.le_antisymm (Nat.not_lt.1 (hb.not_lt ha)) (Nat.not_lt.1 (ha.not_lt hb)))

theorem nearestTo_lower {m : Magnitude} {q : ℚ} (next : Magnitude) (neighbours : next.rank = m.rank + 1)
    (above : m.value ≤ q) (half : 2 * q ≤ m.value + next.value)
    (tie : 2 * q = m.value + next.value → m.rank % 2 = 0) : m.NearestTo q := by
  have sides (other : Magnitude) : other.value ≤ m.value ∨ next.value ≤ other.value := by
    rw [value_le_iff, value_le_iff]
    omega
  have distance : |m.value - q| = q - m.value := by
    rw [abs_of_nonpos (by linarith), neg_sub]
  constructor
  · intro other
    rw [distance]
    rcases sides other with low | high
    · rw [abs_of_nonpos (by linarith)]
      linarith
    · rw [abs_of_nonneg (by linarith)]
      linarith
  · intro other apart equal
    rw [distance] at equal
    rcases sides other with low | high
    · rw [abs_of_nonpos (by linarith)] at equal
      have same : other.value = m.value := by linarith
      exact absurd (ext_value same) apart
    · rw [abs_of_nonneg (by linarith)] at equal
      exact tie (by linarith)

theorem nearestTo_upper {m : Magnitude} {q : ℚ} (previous : Magnitude) (neighbours : m.rank = previous.rank + 1)
    (below : q ≤ m.value) (half : previous.value + m.value ≤ 2 * q)
    (tie : 2 * q = previous.value + m.value → m.rank % 2 = 0) : m.NearestTo q := by
  have sides (other : Magnitude) : other.value ≤ previous.value ∨ m.value ≤ other.value := by
    rw [value_le_iff, value_le_iff]
    omega
  have distance : |m.value - q| = m.value - q := abs_of_nonneg (by linarith)
  constructor
  · intro other
    rw [distance]
    rcases sides other with low | high
    · rw [abs_of_nonpos (by linarith)]
      linarith
    · rw [abs_of_nonneg (by linarith)]
      linarith
  · intro other apart equal
    rw [distance] at equal
    rcases sides other with low | high
    · rw [abs_of_nonpos (by linarith)] at equal
      exact tie (by linarith)
    · rw [abs_of_nonneg (by linarith)] at equal
      have same : other.value = m.value := by linarith
      exact absurd (ext_value same) apart

theorem nearestTo_infinity {q : ℚ} (beyond : infinity.value ≤ q) : infinity.NearestTo q where
  nearest other := by
    have inside : other.value ≤ infinity.value := (value_le_iff _ _).2 other.rank_le
    rw [abs_of_nonpos (by linarith), abs_of_nonpos (by linarith)]
    linarith
  even _ _ _ := by decide

theorem nearestTo_zero {q : ℚ} (nonneg : 0 ≤ q) (tiny : 2 * q * unitsPerOne ≤ 1) : zero.NearestTo q := by
  let least : Magnitude := ⟨1, by decide⟩
  have value : least.value = 1 / unitsPerOne := by
    have units : least.units = 1 := by decide
    rw [Magnitude.value, units, Nat.cast_one]
  have half : 2 * q ≤ zero.value + least.value := by
    rwa [value_zero, zero_add, value, le_div_iff₀ unitsPerOne_pos]
  exact nearestTo_lower least rfl (by rwa [value_zero]) half fun _ => rfl

theorem size_of_steps {shift steps : Nat} (least : binade ≤ steps) (most : steps ≤ 2 * binade) :
    size (shift * binade + steps) = steps * 2 ^ shift := by
  rw [size_of_le (Nat.le_add_left_of_le least), Nat.shiftLeft_eq]
  simp only [binade] at least most ⊢
  by_cases last : steps = 2 * 0x10000000000000
  · -- The last step leads to the next power of two, from where on steps are twice as long.
    rw [show (shift * 0x10000000000000 + steps) % 0x10000000000000 = 0 by omega,
      show (shift * 0x10000000000000 + steps) / 0x10000000000000 - 1 = shift + 1 by omega, last, pow_succ]
    ring
  · rw [show (shift * 0x10000000000000 + steps) / 0x10000000000000 - 1 = shift by omega]
    congr 1
    omega

theorem rankBelow_spec (units : Nat) : size (rankBelow units) ≤ units ∧ units < size (rankBelow units + 1) := by
  by_cases small : units < binade
  · -- Subnormal sizes are their own ranks.
    have rank : rankBelow units = units := by
      have := rankBelow_size units
      rwa [size_of_lt small] at this
    have next := size_lt_size_succ units
    rw [size_of_lt small] at next
    rw [rank, size_of_lt small]
    exact ⟨le_refl units, next⟩
  · have positive : units ≠ 0 := by
      rintro rfl
      exact small (by decide)
    obtain ⟨lower, upper⟩ := (Nat.log2_eq_iff positive).1 rfl
    have long : 52 ≤ units.log2 := (Nat.le_log2 positive).2 (Nat.not_lt.1 small)
    obtain ⟨shift, places⟩ : ∃ shift, units.log2 = shift + 52 := ⟨units.log2 - 52, by omega⟩
    rw [places] at lower upper
    have least : binade ≤ units / 2 ^ shift := by
      rw [Nat.le_div_iff_mul_le (by positivity), show binade = 2 ^ 52 from rfl, ← pow_add, Nat.add_comm 52]
      exact lower
    have most : units / 2 ^ shift < 2 * binade := by
      rw [Nat.div_lt_iff_lt_mul (by positivity), show 2 * binade = 2 ^ 53 from rfl, ← pow_add, Nat.add_comm 53]
      exact upper
    have rank : rankBelow units = shift * binade + units / 2 ^ shift := by
      simp only [rankBelow, places, Nat.add_sub_cancel, Nat.shiftRight_eq_div_pow]
    rw [rank, Nat.add_assoc, size_of_steps least most.le, size_of_steps (by omega) (by omega)]
    refine ⟨Nat.div_mul_le_self _ _, ?_⟩
    rw [Nat.mul_comm]
    exact Nat.lt_mul_div_succ units (by positivity)

/-- What decides between the two ranks around a number is the middle between them. -/
theorem nearestRank_cases (n d : Nat) :
    let rank := rankBelow (n / d)
    let middle := (size rank + size (rank + 1)) * d
    nearestRank n d = rank ∧ 2 * n ≤ middle ∧ (2 * n = middle → rank % 2 = 0) ∨
      nearestRank n d = rank + 1 ∧ middle ≤ 2 * n ∧ (2 * n = middle → (rank + 1) % 2 = 0) := by
  simp only [nearestRank]
  split_ifs <;> omega

/-- Rounding finds the nearest magnitude. The exact number, the sizes around it and the middle between them are all
counted in parts of a unit. -/
theorem nearestTo_nearest (n : Nat) {d : Nat} (positive : 0 < d) : (nearest n d).NearestTo (n / (d * unitsPerOne)) := by
  have parts : (0 : ℚ) < d * unitsPerOne := mul_pos (Nat.cast_pos.2 positive) unitsPerOne_pos
  have value_eq (m : Magnitude) : m.value = ((m.units * d : Nat) : ℚ) / (d * unitsPerOne) := by
    rw [Magnitude.value, Nat.cast_mul, mul_comm (m.units : ℚ),
      mul_div_mul_left _ _ (Nat.cast_ne_zero.2 positive.ne')]
  obtain ⟨lower, upper⟩ := rankBelow_spec (n / d)
  rw [Nat.le_div_iff_mul_le positive] at lower
  rw [Nat.div_lt_iff_lt_mul positive] at upper
  have cases := nearestRank_cases n d
  by_cases beyond : topRank ≤ rankBelow (n / d)
  · -- Ranks are cut off at that of infinity.
    have rounded : nearest n d = infinity := ext_rank (Nat.min_eq_right (by omega))
    have least : infinity.units * d ≤ n := (Nat.mul_le_mul_right d (size_strictMono.monotone beyond)).trans lower
    rw [rounded]
    refine nearestTo_infinity ?_
    rw [value_eq, div_le_div_iff_of_pos_right parts]
    exact_mod_cast least
  · let below : Magnitude := ⟨rankBelow (n / d), (Nat.not_le.1 beyond).le⟩
    let above : Magnitude := ⟨rankBelow (n / d) + 1, Nat.not_le.1 beyond⟩
    have sum : below.value + above.value = (((below.units + above.units) * d : Nat) : ℚ) / (d * unitsPerOne) := by
      rw [value_eq, value_eq, ← add_div, ← Nat.cast_add, Nat.add_mul]
    have double : 2 * ((n : ℚ) / (d * unitsPerOne)) = ((2 * n : Nat) : ℚ) / (d * unitsPerOne) := by
      rw [← mul_div_assoc, Nat.cast_mul, Nat.cast_ofNat]
    have middle : 2 * ((n : ℚ) / (d * unitsPerOne)) = below.value + above.value ↔
        2 * n = (below.units + above.units) * d := by
      rw [sum, double, div_left_inj' parts.ne', Nat.cast_inj]
    rcases cases with ⟨chosen, half, tie⟩ | ⟨chosen, half, tie⟩
    · have rounded : nearest n d = below := ext_rank ((Nat.min_eq_left (by omega)).trans chosen)
      rw [rounded]
      refine nearestTo_lower above rfl ?_ ?_ (fun equal => tie (middle.1 equal))
      · rw [value_eq, div_le_div_iff_of_pos_right parts]
        exact_mod_cast lower
      · rw [sum, double, div_le_div_iff_of_pos_right parts]
        exact_mod_cast half
    · have rounded : nearest n d = above := ext_rank ((Nat.min_eq_left (by omega)).trans chosen)
      rw [rounded]
      refine nearestTo_upper below rfl ?_ ?_ (fun equal => tie (middle.1 equal))
      · rw [value_eq, div_le_div_iff_of_pos_right parts]
        exact_mod_cast upper.le
      · rw [sum, double, div_le_div_iff_of_pos_right parts]
        exact_mod_cast half

theorem nearestTo_value (m : Magnitude) : m.NearestTo m.value where
  nearest other := by
    rw [sub_self, abs_zero]
    exact abs_nonneg _
  even other apart equal := by
    rw [sub_self, abs_zero, abs_eq_zero, sub_eq_zero] at equal
    exact absurd (ext_value equal) apart

theorem nearestTo_scale (m : Magnitude) (factor : Nat) : (m.scale factor).NearestTo (m.value * factor) := by
  have rounded := nearestTo_nearest (m.units * factor) one_pos
  rwa [Nat.cast_one, one_mul, Nat.cast_mul, mul_div_right_comm] at rounded

end Magnitude

namespace Decimal

def value (x : Decimal) : ℚ :=
  x.significand * 10 ^ x.exponent

theorem tenTo_le {a b : Nat} (h : a ≤ b) : tenTo a ≤ tenTo b :=
  Nat.pow_le_pow_right (by decide) h

theorem cast_tenTo (places : Nat) : (tenTo places : ℚ) = 10 ^ places := by
  rw [tenTo, Nat.pow_eq, Nat.cast_pow, Nat.cast_ofNat]

theorem value_ofNat (significand places : Nat) :
    value ⟨significand, .ofNat places⟩ = significand * tenTo places := by
  rw [value, Int.ofNat_eq_natCast, zpow_natCast, cast_tenTo]

theorem value_negSucc (significand places : Nat) :
    value ⟨significand, .negSucc places⟩ = significand / tenTo (places + 1) := by
  rw [value, zpow_negSucc, ← div_eq_mul_inv, cast_tenTo]

theorem infinity_le_value {significand places : Nat} (positive : 1 ≤ significand) (far : 400 < places) :
    Magnitude.infinity.value ≤ value ⟨significand, .ofNat places⟩ := by
  have bound : Magnitude.infinity.units ≤ tenTo 401 * Magnitude.unitsPerOne := by decide +kernel
  have power : tenTo 401 ≤ tenTo places := tenTo_le far
  have product : tenTo 401 ≤ significand * tenTo places := power.trans (Nat.le_mul_of_pos_left _ positive)
  rw [value_ofNat, Magnitude.value, div_le_iff₀ Magnitude.unitsPerOne_pos]
  exact_mod_cast bound.trans (Nat.mul_le_mul_right _ product)

theorem value_le_half {significand places : Nat} (far : 400 + significand.log2 < places) :
    2 * value ⟨significand, .negSucc places⟩ * Magnitude.unitsPerOne ≤ 1 := by
  have bound : 4 * Magnitude.unitsPerOne ≤ tenTo 402 := by decide +kernel
  have digits : significand ≤ 2 * tenTo significand.log2 :=
    calc significand ≤ 2 ^ (significand.log2 + 1) := Nat.lt_log2_self.le
      _ = 2 * 2 ^ significand.log2 := by rw [pow_succ, Nat.mul_comm]
      _ ≤ 2 * tenTo significand.log2 := Nat.mul_le_mul_left 2 (Nat.pow_le_pow_left (by decide) _)
  have whole : 2 * significand * Magnitude.unitsPerOne ≤ tenTo (places + 1) :=
    calc 2 * significand * Magnitude.unitsPerOne ≤ 2 * (2 * tenTo significand.log2) * Magnitude.unitsPerOne :=
          Nat.mul_le_mul_right _ (Nat.mul_le_mul_left 2 digits)
      _ = 4 * Magnitude.unitsPerOne * tenTo significand.log2 := by ring
      _ ≤ tenTo 402 * tenTo significand.log2 := Nat.mul_le_mul_right _ bound
      _ = tenTo (402 + significand.log2) := (tenTo_add _ _).symm
      _ ≤ tenTo (places + 1) := tenTo_le (by omega)
  have denominator : (0 : ℚ) < tenTo (places + 1) := Nat.cast_pos.2 (tenTo_pos _)
  rw [value_negSucc, ← mul_div_assoc, div_mul_eq_mul_div, div_le_one denominator]
  exact_mod_cast whole

/-- Decimals are rounded to nearest, also those that are answered by their exponents alone. -/
theorem nearestTo_toMagnitude (x : Decimal) : x.toMagnitude.NearestTo x.value := by
  obtain ⟨significand, exponent⟩ := x
  by_cases zero : significand = 0
  · have nothing : (Decimal.mk significand exponent).value = 0 := by simp [value, zero]
    rw [toMagnitude, if_pos zero, nothing]
    exact Magnitude.nearestTo_zero le_rfl (by simp)
  have units : (Magnitude.unitsPerOne : ℚ) ≠ 0 := Magnitude.unitsPerOne_pos.ne'
  cases exponent with
  | ofNat places =>
    simp only [toMagnitude, if_neg zero]
    split
    · next far => exact Magnitude.nearestTo_infinity (infinity_le_value (Nat.one_le_iff_ne_zero.2 zero) far)
    · have rounded := Magnitude.nearestTo_nearest (significand * tenTo places * Magnitude.unitsPerOne) one_pos
      rwa [Nat.cast_one, one_mul, Nat.cast_mul, mul_div_cancel_right₀ _ units, Nat.cast_mul, ← value_ofNat] at rounded
  | negSucc places =>
    simp only [toMagnitude, if_neg zero]
    split
    · next far =>
      have nonneg : 0 ≤ (Decimal.mk significand (.negSucc places)).value := by
        rw [value_negSucc]
        exact div_nonneg (Nat.cast_nonneg _) (Nat.cast_nonneg _)
      exact Magnitude.nearestTo_zero nonneg (value_le_half far)
    · have rounded := Magnitude.nearestTo_nearest (significand * Magnitude.unitsPerOne) (tenTo_pos (places + 1))
      rwa [Nat.cast_mul, mul_div_mul_right _ _ units, ← value_negSucc] at rounded

end Decimal

/-- The double nearest to a number of this size with this sign. Zero has a sign as well. -/
def Binary64.NearestTo (x : Binary64) (sign : Option Sign) (size : ℚ) : Prop :=
  ∃ m : Magnitude, m.NearestTo size ∧ x = .signed (sign = some .minus) m

theorem Binary64.NearestTo.unique {x y : Binary64} {sign : Option Sign} {size : ℚ} (hx : x.NearestTo sign size)
    (hy : y.NearestTo sign size) : x = y := by
  obtain ⟨m, nearest, rfl⟩ := hx
  obtain ⟨other, nearest', rfl⟩ := hy
  rw [nearest.unique nearest']

theorem Decimal.nearestTo_toBinary64 (x : Decimal) (sign : Option Sign) :
    (x.toBinary64 (sign = some .minus)).NearestTo sign x.value :=
  ⟨x.toMagnitude, x.nearestTo_toMagnitude, rfl⟩

theorem Numeral.value_decimal (n : Numeral) : n.decimal.value = n.value := by
  rw [Decimal.value, Numeral.value, div_eq_mul_inv]
  simp only [decimal, Decimal.ofPlaces, zpow_neg, zpow_natCast]

theorem Signed.nearestTo_number (sign : Option Sign) (n : Numeral) : (number sign n).NearestTo sign n.value := by
  rw [← n.value_decimal]
  exact n.decimal.nearestTo_toBinary64 sign

/-- The exact size of a number at the front of a text: its digits, moved by as many places as the point and the exponent
say. -/
def FrontNumber.size (n : FrontNumber) : ℚ :=
  (Decimal.ofDigits (n.whole ++ n.fraction) : ℚ) / 10 ^ n.fraction.length *
    10 ^ (n.exponent.map WrittenExponent.value).getD 0

theorem FrontNumber.nearestTo_number (n : FrontNumber) : n.number.NearestTo n.sign n.size := by
  have exact : ((Decimal.ofPlaces n.whole n.fraction).shift ((n.exponent.map WrittenExponent.value).getD 0)).value =
      n.size := by
    rw [Decimal.value, Decimal.shift, size, zpow_add₀ (by norm_num), ← mul_assoc, div_eq_mul_inv]
    simp only [Decimal.ofPlaces, zpow_neg, zpow_natCast]
  rw [← exact]
  exact Decimal.nearestTo_toBinary64 _ _

end SpeechMarkup
