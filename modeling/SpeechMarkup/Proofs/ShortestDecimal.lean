import SpeechMarkup.Proofs.Rounding

/-! The shortest decimals. Those that are rounded to a magnitude lie side by side around it, so on a grid of decimals
one of them is a neighbour of the magnitude, if there is one at all. None lies on a grid whose step is ten times the
magnitude or more, and seventeen digits suffice. So the search over the grids finds the decimal that is known without
it: on the coarsest grid, the nearest, and of two the even one. -/

namespace SpeechMarkup

namespace Decimal

variable {x y : Decimal}

theorem value_le_iff (grid : x.exponent = y.exponent) : x.value ≤ y.value ↔ x.significand ≤ y.significand := by
  rw [value, value, grid, mul_le_mul_iff_left₀ (zpow_pos (by norm_num) _), Nat.cast_le]

theorem ext_value (grid : x.exponent = y.exponent) (same : x.value = y.value) : x = y := by
  have below := (value_le_iff grid).1 same.le
  have above := (value_le_iff grid.symm).1 same.ge
  obtain ⟨significand, exponent⟩ := x
  obtain ⟨other, exponent'⟩ := y
  cases grid
  exact congrArg (Decimal.mk · exponent) (Nat.le_antisymm below above)

theorem length_digits {n : Nat} (positive : n ≠ 0) :
    10 ^ ((digits n).length - 1) ≤ n ∧ n < 10 ^ (digits n).length := by
  have length : 0 < (digits n).length := Nat.length_toDigits_pos
  refine ⟨?_, (Nat.length_toDigits_le_iff (by decide) length).1 le_rfl⟩
  by_cases one : (digits n).length - 1 = 0
  · rw [one, pow_zero]
    exact Nat.pos_of_ne_zero positive
  · rw [← Nat.not_lt, ← Nat.length_toDigits_le_iff (by decide) (Nat.pos_of_ne_zero one), Nat.not_le]
    exact Nat.sub_lt length one_pos

end Decimal

namespace Magnitude

section Around

variable {m : Magnitude} {p q r : ℚ}

theorem NearestTo.between (low : m.NearestTo p) (high : m.NearestTo r) (above : p ≤ q) (below : q ≤ r) :
    m.NearestTo q := by
  constructor
  · intro other
    rcases lt_trichotomy m.value other.value with less | same | greater
    · have middle := (nearer_iff_of_lt less).1 (high.nearest other)
      exact (nearer_iff_of_lt less).2 (by linarith)
    · rw [same]
    · have middle := (nearer_iff_of_gt greater).1 (low.nearest other)
      exact (nearer_iff_of_gt greater).2 (by linarith)
  -- In the middle between two magnitudes lies only an end of what is rounded to one of them.
  · intro other apart equal
    rcases lt_trichotomy m.value other.value with less | same | greater
    · have middle := (nearer_iff_of_lt less).1 (high.nearest other)
      have tie := (equally_near_iff less).1 equal.symm
      obtain rfl : q = r := by linarith
      exact high.even other apart equal
    · exact absurd (ext_value same.symm) apart
    · have middle := (nearer_iff_of_gt greater).1 (low.nearest other)
      have tie := (equally_near_iff greater).1 equal
      obtain rfl : q = p := by linarith
      exact low.even other apart equal

theorem exists_steps (rank : Nat) :
    ∃ shift steps, steps < 2 * binade ∧ size rank = steps * 2 ^ shift ∧ size (rank + 1) = (steps + 1) * 2 ^ shift := by
  by_cases small : rank < binade
  · refine ⟨0, rank, by omega, by rw [size_of_lt small, pow_zero, mul_one], ?_⟩
    by_cases last : rank + 1 = binade
    · have top : size (0 * binade + binade) = binade * 2 ^ 0 :=
        size_of_steps le_rfl (Nat.le_mul_of_pos_left binade two_pos)
      rwa [Nat.zero_mul, Nat.zero_add, ← last] at top
    · rw [size_of_lt (by omega), pow_zero, mul_one]
  · obtain ⟨shift, steps, least, most, rfl⟩ : ∃ shift steps, binade ≤ steps ∧ steps < 2 * binade ∧
        rank = shift * binade + steps := by
      refine ⟨rank / binade - 1, binade + rank % binade, ?_⟩
      simp only [binade] at small ⊢
      omega
    refine ⟨shift, steps, most, size_of_steps least most.le, ?_⟩
    rw [Nat.add_assoc, size_of_steps (by omega) (by omega)]

theorem nearestTo_of_close (finite : m ≠ infinity) (close : 2 ^ 54 * |q - m.value| < m.value) : m.NearestTo q := by
  have inside : m.rank < topRank := Nat.lt_of_le_of_ne m.rank_le fun top => finite (ext_rank top)
  -- From a magnitude to the next it is at least the `2 ^ 53`rd part of the way from zero.
  have step {a b : Magnitude} (neighbours : b.rank = a.rank + 1) : b.value ≤ 2 ^ 53 * (b.value - a.value) := by
    obtain ⟨shift, steps, few, size, next⟩ := exists_steps a.rank
    have units : a.units = steps * 2 ^ shift ∧ b.units = (steps + 1) * 2 ^ shift := by
      rw [units, units, neighbours]
      exact ⟨size, next⟩
    have few : ((steps : ℚ) + 1) ≤ 2 ^ 53 := by exact_mod_cast few
    rw [value, value, units.1, units.2, ← sub_div, ← mul_div_assoc, div_le_div_iff_of_pos_right unitsPerOne_pos]
    push_cast
    have power : (0 : ℚ) < 2 ^ shift := by positivity
    nlinarith
  rcases le_total m.value q with above | below
  · let next : Magnitude := ⟨m.rank + 1, inside⟩
    have room := step (b := next) rfl
    have further : m.value < next.value := (value_lt_iff m next).2 (Nat.lt_succ_self _)
    rw [abs_of_nonneg (by linarith)] at close
    exact nearestTo_lower next rfl above (by linarith) fun tie => absurd tie (by linarith)
  · rw [abs_of_nonpos (by linarith)] at close
    have positive : 0 < m.rank := (value_pos_iff m).1 (by linarith)
    let previous : Magnitude := ⟨m.rank - 1, by omega⟩
    have neighbours : m.rank = previous.rank + 1 := (Nat.sub_add_cancel positive).symm
    have room := step neighbours
    exact nearestTo_upper previous neighbours below (by linarith) fun tie => absurd tie (by linarith)

theorem NearestTo.bounds (reads : m.NearestTo q) (positive : m ≠ zero) (finite : m ≠ infinity) :
    q ≠ 0 ∧ 2 * q ≤ 3 * m.value := by
  constructor
  · rintro rfl
    exact positive (reads.unique (nearestTo_zero le_rfl (by simp)))
  · have inside : m.rank < topRank := Nat.lt_of_le_of_ne m.rank_le fun top => finite (ext_rank top)
    let next : Magnitude := ⟨m.rank + 1, inside⟩
    have further : m.value < next.value := (value_lt_iff m next).2 (Nat.lt_succ_self _)
    have middle := (nearer_iff_of_lt further).1 (reads.nearest next)
    have double : next.value ≤ 2 * m.value := by
      obtain ⟨shift, steps, -, size, succ⟩ := exists_steps m.rank
      have some : steps ≠ 0 := by
        rintro rfl
        exact (units_pos positive).ne' (by rw [units, size, Nat.zero_mul])
      rw [value, value, ← mul_div_assoc, div_le_div_iff_of_pos_right unitsPerOne_pos]
      have units : next.units ≤ 2 * m.units := by
        rw [show next.units = _ from succ, show m.units = _ from size, ← Nat.mul_assoc]
        exact Nat.mul_le_mul_right _ (by omega)
      exact_mod_cast units
    linarith

end Around

section Grid

variable {m : Magnitude} {x y other : Decimal} {exponent : Int} {tie : Tie}

theorem toMagnitude_eq_iff : x.toMagnitude = m ↔ m.NearestTo x.value := by
  constructor
  · rintro rfl
    exact x.nearestTo_toMagnitude
  · exact x.nearestTo_toMagnitude.unique

/-- The chosen decimal of a grid: of those that are rounded to the magnitude the nearest, and of two equally near ones
the even one. -/
structure Chosen (m : Magnitude) (x : Decimal) : Prop where
  reads : m.NearestTo x.value
  nearest : ∀ y : Decimal, y.exponent = x.exponent → m.NearestTo y.value →
    |x.value - m.value| ≤ |y.value - m.value|
  even : ∀ y : Decimal, y.exponent = x.exponent → m.NearestTo y.value → y ≠ x →
    |y.value - m.value| = |x.value - m.value| → x.significand % 2 = 0

/-- The first decimal is on the way from the magnitude to the second. -/
def OnTheWay (m : Magnitude) (x y : Decimal) : Prop :=
  y.value ≤ x.value ∧ x.value ≤ m.value ∨ m.value ≤ x.value ∧ x.value ≤ y.value

theorem OnTheWay.reads (way : m.OnTheWay x y) (reads : m.NearestTo y.value) : m.NearestTo x.value := by
  rcases way with ⟨far, near⟩ | ⟨near, far⟩
  · exact reads.between m.nearestTo_value far near
  · exact m.nearestTo_value.between reads near far

theorem OnTheWay.nearer (way : m.OnTheWay x y) : |x.value - m.value| ≤ |y.value - m.value| := by
  rcases way with ⟨far, near⟩ | ⟨near, far⟩
  · rw [abs_of_nonpos (by linarith), abs_of_nonpos (by linarith)]
    linarith
  · rw [abs_of_nonneg (by linarith), abs_of_nonneg (by linarith)]
    linarith

theorem OnTheWay.value_eq (way : m.OnTheWay x y) (equal : |y.value - m.value| ≤ |x.value - m.value|) :
    y.value = x.value := by
  rcases way with ⟨far, near⟩ | ⟨near, far⟩
  · rw [abs_of_nonpos (by linarith), abs_of_nonpos (by linarith)] at equal
    linarith
  · rw [abs_of_nonneg (by linarith), abs_of_nonneg (by linarith)] at equal
    linarith

/-- The neighbours of a magnitude on a grid, of which every other decimal there has one on its way. -/
structure Neighbours (m : Magnitude) (near far : Decimal) : Prop where
  grid : far.exponent = near.exponent
  sides : ∀ y : Decimal, y.exponent = near.exponent → m.OnTheWay near y ∨ m.OnTheWay far y

theorem Neighbours.symm (neighbours : m.Neighbours x other) : m.Neighbours other x where
  grid := neighbours.grid.symm
  sides y same := (neighbours.sides y (same.trans neighbours.grid)).symm

theorem Neighbours.chosen_near (neighbours : m.Neighbours x other) (reads : m.NearestTo x.value)
    (nearer : |x.value - m.value| ≤ |other.value - m.value|)
    (even : |other.value - m.value| = |x.value - m.value| → x.significand % 2 = 0) : m.Chosen x where
  reads := reads
  nearest y grid _ := (neighbours.sides y grid).elim OnTheWay.nearer fun way => nearer.trans way.nearer
  even y grid _ apart equal := by
    rcases neighbours.sides y grid with way | way
    · exact absurd (Decimal.ext_value grid (way.value_eq equal.le)) apart
    · exact even (le_antisymm (equal ▸ way.nearer) nearer)

theorem Neighbours.chosen_far (neighbours : m.Neighbours x other) (reads : m.NearestTo x.value)
    (alone : ¬m.NearestTo other.value) : m.Chosen x where
  reads := reads
  nearest y grid readsOther :=
    ((neighbours.sides y grid).resolve_right fun way => alone (way.reads readsOther)).nearer
  even y grid readsOther apart equal := by
    have way := (neighbours.sides y grid).resolve_right fun way => alone (way.reads readsOther)
    exact absurd (Decimal.ext_value grid (way.value_eq equal.le)) apart

theorem value_inSteps (m : Magnitude) (exponent : Int) :
    0 < (m.inSteps exponent).2 ∧ m.value = (m.inSteps exponent).1 / (m.inSteps exponent).2 * 10 ^ exponent := by
  have units : 0 < unitsPerOne := by exact_mod_cast unitsPerOne_pos
  cases exponent with
  | ofNat places =>
    refine ⟨Nat.mul_pos units (Decimal.tenTo_pos places), ?_⟩
    have tens : (10 : ℚ) ^ places ≠ 0 := by positivity
    rw [inSteps, Int.ofNat_eq_natCast, zpow_natCast, Nat.cast_mul, Decimal.cast_tenTo, value, ← div_div,
      div_mul_cancel₀ _ tens]
  | negSucc places =>
    refine ⟨units, ?_⟩
    have tens : (10 : ℚ) ^ (places + 1) ≠ 0 := by positivity
    rw [inSteps, zpow_negSucc, Nat.cast_mul, Decimal.cast_tenTo, value, mul_div_right_comm, mul_assoc,
      mul_inv_cancel₀ tens, mul_one]

theorem distances (m : Magnitude) (exponent : Int) :
    let n := (m.inSteps exponent).1
    let d := (m.inSteps exponent).2
    |(Decimal.mk (n / d) exponent).value - m.value| = (n % d : Nat) / d * 10 ^ exponent ∧
      |(Decimal.mk (n / d + 1) exponent).value - m.value| = (d - (n % d : Nat)) / d * 10 ^ exponent ∧
      m.Neighbours ⟨n / d, exponent⟩ ⟨n / d + 1, exponent⟩ := by
  obtain ⟨positive, exact⟩ := m.value_inSteps exponent
  generalize (m.inSteps exponent).1 = n at *
  generalize (m.inSteps exponent).2 = d at *
  dsimp only
  have parts : (0 : ℚ) < d := Nat.cast_pos.2 positive
  have step : (0 : ℚ) < 10 ^ exponent := zpow_pos (by norm_num) _
  have rest : ((n % d : Nat) : ℚ) < d := Nat.cast_lt.2 (Nat.mod_lt n positive)
  have split : (n : ℚ) = d * (n / d : Nat) + (n % d : Nat) := by exact_mod_cast (Nat.div_add_mod n d).symm
  have below : (Decimal.mk (n / d) exponent).value = m.value - (n % d : Nat) / d * 10 ^ exponent := by
    rw [Decimal.value, exact, split]
    field_simp
    ring
  have above : (Decimal.mk (n / d + 1) exponent).value = m.value + (d - (n % d : Nat)) / d * 10 ^ exponent := by
    rw [Decimal.value, exact, split]
    push_cast
    field_simp
    ring
  have low : 0 ≤ ((n % d : Nat) : ℚ) / d * 10 ^ exponent := by positivity
  have high : 0 ≤ ((d : ℚ) - (n % d : Nat)) / d * 10 ^ exponent := by
    have : (0 : ℚ) ≤ d - (n % d : Nat) := by linarith
    positivity
  refine ⟨?_, ?_, rfl, fun y grid => ?_⟩
  · rw [below, abs_of_nonpos (by linarith)]
    ring
  · rw [above, abs_of_nonneg (by linarith)]
    ring
  · rcases Nat.lt_or_ge (n / d) y.significand with more | less
    · exact .inr (.inr ⟨by linarith, (Decimal.value_le_iff (x := ⟨n / d + 1, exponent⟩) grid.symm).2 more⟩)
    · exact .inl (.inl ⟨(Decimal.value_le_iff grid).2 less, by linarith⟩)

theorem Neighbours.chosen_of_find? {near far : Decimal} (neighbours : m.Neighbours near far)
    (nearer : |near.value - m.value| ≤ |far.value - m.value|)
    (even : |far.value - m.value| = |near.value - m.value| → near.significand % 2 = 0)
    (found : [near, far].find? (fun x => x.toMagnitude = m) = some x) : x.exponent = near.exponent ∧ m.Chosen x := by
  by_cases first : near.toMagnitude = m
  · obtain rfl : near = x := by simpa [first] using found
    exact ⟨rfl, neighbours.chosen_near (toMagnitude_eq_iff.1 first) nearer even⟩
  · obtain ⟨second, rfl⟩ : far.toMagnitude = m ∧ far = x := by
      rw [List.find?_cons_of_neg (by simpa using first), List.find?_singleton] at found
      simpa using found
    rw [toMagnitude_eq_iff] at first second
    exact ⟨neighbours.grid, neighbours.symm.chosen_far second first⟩

theorem Neighbours.find?_ne_none {near far : Decimal} (neighbours : m.Neighbours near far)
    (grid : y.exponent = near.exponent) (reads : m.NearestTo y.value) :
    [near, far].find? (fun x => x.toMagnitude = m) ≠ none := by
  rw [Ne, List.find?_eq_none]
  intro none
  simp only [List.forall_mem_cons, decide_eq_true_eq, toMagnitude_eq_iff] at none
  rcases neighbours.sides y grid with way | way
  · exact none.1 (way.reads reads)
  · exact none.2.1 (way.reads reads)

theorem chosen_of_onGrid? (found : m.onGrid? .toEven exponent = some x) : x.exponent = exponent ∧ m.Chosen x := by
  obtain ⟨below, above, neighbours⟩ := m.distances exponent
  obtain ⟨positive, -⟩ := m.value_inSteps exponent
  simp only [onGrid?] at found
  generalize (m.inSteps exponent).1 = n at *
  generalize (m.inSteps exponent).2 = d at *
  have parts : (0 : ℚ) < d := Nat.cast_pos.2 positive
  have step : (0 : ℚ) < 10 ^ exponent := zpow_pos (by norm_num) _
  have order : |(Decimal.mk (n / d) exponent).value - m.value| ≤ |(Decimal.mk (n / d + 1) exponent).value - m.value| ↔
      2 * (n % d) ≤ d := by
    rw [below, above, mul_le_mul_iff_left₀ step, div_le_div_iff_of_pos_right parts, le_sub_iff_add_le, ← two_mul]
    exact_mod_cast Iff.rfl
  have reverse : |(Decimal.mk (n / d + 1) exponent).value - m.value| ≤ |(Decimal.mk (n / d) exponent).value - m.value| ↔
      d ≤ 2 * (n % d) := by
    rw [below, above, mul_le_mul_iff_left₀ step, div_le_div_iff_of_pos_right parts, sub_le_iff_le_add, ← two_mul]
    exact_mod_cast Iff.rfl
  split at found
  next nearerBelow =>
    simp only [Bool.or_eq_true, Bool.and_eq_true, decide_eq_true_eq] at nearerBelow
    refine neighbours.chosen_of_find? (order.2 (by omega)) (fun equal => ?_) found
    have half := reverse.1 equal.le
    dsimp only
    omega
  next nearerAbove =>
    simp only [Bool.or_eq_true, Bool.and_eq_true, decide_eq_true_eq] at nearerAbove
    refine neighbours.symm.chosen_of_find? (reverse.2 (by omega)) (fun equal => ?_) found
    have half := order.1 equal.le
    change (n / d + 1) % 2 = 0
    have odd : n / d % 2 ≠ 0 := fun even => nearerAbove (.inr ⟨⟨by omega, trivial⟩, even⟩)
    omega

theorem onGrid?_ne_none (reads : m.NearestTo y.value) : m.onGrid? tie y.exponent ≠ none := by
  obtain ⟨-, -, neighbours⟩ := m.distances y.exponent
  simp only [onGrid?]
  split
  · exact neighbours.find?_ne_none (y := y) rfl reads
  · exact neighbours.symm.find?_ne_none (y := y) rfl reads

end Grid

section Places

variable {m : Magnitude}

theorem length_digits_spec (positive : m ≠ zero) {places : Nat} (enough : unitsPerOne ≤ Decimal.tenTo places) :
    let count := (Decimal.digits (m.units * Decimal.tenTo places / unitsPerOne)).length
    (10 : ℚ) ^ ((count : Int) - places - 1) ≤ m.value ∧ m.value < 10 ^ ((count : Int) - places) := by
  have units : 0 < unitsPerOne := by exact_mod_cast unitsPerOne_pos
  obtain ⟨parts, cut⟩ : ∃ parts, m.units * Decimal.tenTo places / unitsPerOne = parts := ⟨_, rfl⟩
  have least : parts * unitsPerOne ≤ m.units * Decimal.tenTo places := (Nat.le_div_iff_mul_le units).1 cut.ge
  have most : m.units * Decimal.tenTo places < (parts + 1) * unitsPerOne :=
    (Nat.div_lt_iff_lt_mul units).1 (cut ▸ Nat.lt_succ_self _)
  have some : 1 ≤ parts := by
    rw [← cut, Nat.le_div_iff_mul_le units, one_mul]
    exact enough.trans (Nat.le_mul_of_pos_left _ (units_pos positive))
  obtain ⟨above, below⟩ := Decimal.length_digits (Nat.one_le_iff_ne_zero.1 some)
  rw [cut]
  dsimp only
  obtain ⟨more, count⟩ : ∃ more, (Decimal.digits parts).length = more + 1 :=
    Nat.exists_eq_add_one.2 Nat.length_toDigits_pos
  rw [count] at above below
  have tens (k : Nat) : (10 : ℚ) ^ ((k : Int) - places) = 10 ^ k / Decimal.tenTo places := by
    rw [zpow_sub₀ (by norm_num), zpow_natCast, zpow_natCast, Decimal.cast_tenTo]
  have denominator : (0 : ℚ) < Decimal.tenTo places := Nat.cast_pos.2 (Decimal.tenTo_pos places)
  have one : ((more + 1 : Nat) : Int) - places - 1 = (more : Int) - places := by omega
  rw [count, one, tens, tens, value, div_le_div_iff₀ denominator unitsPerOne_pos,
    div_lt_div_iff₀ unitsPerOne_pos denominator]
  constructor
  · exact_mod_cast (Nat.mul_le_mul_right unitsPerOne above).trans least
  · exact_mod_cast most.trans_le (Nat.mul_le_mul_right unitsPerOne below)

theorem leadingPlace_spec (positive : m ≠ zero) :
    (10 : ℚ) ^ (m.leadingPlace - 1) ≤ m.value ∧ m.value < 10 ^ m.leadingPlace :=
  have enough : unitsPerOne ≤ Decimal.tenTo 400 := by decide +kernel
  length_digits_spec positive enough

theorem exponent_le_leadingPlace (positive : m ≠ zero) (finite : m ≠ infinity) {y : Decimal}
    (reads : m.NearestTo y.value) : y.exponent ≤ m.leadingPlace := by
  by_contra coarse
  obtain ⟨some, most⟩ := reads.bounds positive finite
  have step : (0 : ℚ) < 10 ^ y.exponent := zpow_pos (by norm_num) _
  have one : 1 ≤ y.significand := Nat.one_le_iff_ne_zero.2 fun none => some (by simp [Decimal.value, none])
  have least : (10 : ℚ) ^ y.exponent ≤ y.value := by
    rw [Decimal.value]
    exact le_mul_of_one_le_left step.le (by exact_mod_cast one)
  have tenfold : (10 : ℚ) ^ (m.leadingPlace + 1) ≤ 10 ^ y.exponent :=
    zpow_le_zpow_right₀ (by norm_num) (by omega)
  rw [zpow_add_one₀ (by norm_num)] at tenfold
  have below := (leadingPlace_spec positive).2
  have above := m.value_nonneg
  linarith

/-- Seventeen digits suffice: half a step of that grid is less than half the way to the next magnitude. -/
theorem exists_seventeen (positive : m ≠ zero) (finite : m ≠ infinity) :
    ∃ y : Decimal, y.exponent = m.leadingPlace - 17 ∧ m.NearestTo y.value := by
  obtain ⟨below, above, -⟩ := m.distances (m.leadingPlace - 17)
  obtain ⟨some, -⟩ := m.value_inSteps (m.leadingPlace - 17)
  generalize (m.inSteps (m.leadingPlace - 17)).1 = n at *
  generalize (m.inSteps (m.leadingPlace - 17)).2 = d at *
  have parts : (0 : ℚ) < d := Nat.cast_pos.2 some
  have least := (leadingPlace_spec positive).1
  have step : (10 : ℚ) ^ (m.leadingPlace - 17) = 10 ^ (m.leadingPlace - 1) / 10 ^ 16 := by
    rw [← zpow_natCast, ← zpow_sub₀ (by norm_num)]
    congr 1
    omega
  have size : (0 : ℚ) < 10 ^ (m.leadingPlace - 1) := zpow_pos (by norm_num) _
  -- A neighbour at most half a step away is close enough.
  have close {part : ℚ} (half : part ≤ 1 / 2) : 2 ^ 54 * (part * 10 ^ (m.leadingPlace - 17)) < m.value := by
    rw [step]
    refine lt_of_lt_of_le ?_ least
    have product := mul_le_mul_of_nonneg_right half size.le
    linarith
  rcases le_total (2 * (n % d)) d with low | high
  · refine ⟨⟨n / d, _⟩, rfl, nearestTo_of_close finite ?_⟩
    rw [below]
    refine close ?_
    rw [div_le_div_iff₀ parts two_pos, one_mul, mul_comm]
    exact_mod_cast low
  · refine ⟨⟨n / d + 1, _⟩, rfl, nearestTo_of_close finite ?_⟩
    rw [above]
    refine close ?_
    have high : (d : ℚ) ≤ 2 * (n % d : Nat) := by exact_mod_cast high
    rw [div_le_div_iff₀ parts two_pos]
    linarith

end Places

section Shortest

variable {m : Magnitude} {x y : Decimal}

/-- The shortest decimal for a magnitude: none on a coarser grid is rounded to it, and of its own grid it is the chosen
one. -/
structure Shortest (m : Magnitude) (x : Decimal) : Prop extends Chosen m x where
  coarsest : ∀ y : Decimal, m.NearestTo y.value → y.exponent ≤ x.exponent

/-- The search over the grids finds the shortest decimal. -/
theorem shortest_toEven (positive : m ≠ zero) (finite : m ≠ infinity) : m.Shortest (m.shortest .toEven) := by
  unfold shortest
  extract_lets place
  cases found : (List.range 18).findSome? fun (count : Nat) => m.onGrid? .toEven (place - count) with
  | none =>
    obtain ⟨y, grid, reads⟩ := exists_seventeen positive finite
    rw [List.findSome?_eq_none_iff] at found
    exact absurd (grid ▸ found 17 (by simp)) (onGrid?_ne_none reads)
  | some x =>
    obtain ⟨coarser, count, finer, split, found, before⟩ := List.findSome?_eq_some_iff.1 found
    obtain ⟨chosenGrid, chosen⟩ := chosen_of_onGrid? found
    refine ⟨chosen, fun y reads => ?_⟩
    rw [Option.getD_some]
    by_contra coarse
    have most := exponent_le_leadingPlace positive finite reads
    obtain ⟨fewer, exponent⟩ : ∃ fewer : Nat, y.exponent = place - fewer := ⟨(place - y.exponent).toNat, by omega⟩
    have tried : fewer ∈ coarser := by
      rw [List.range_eq_range', List.range'_eq_append_iff] at split
      obtain ⟨_, -, rfl, rest⟩ := split
      obtain ⟨rfl, -⟩ := List.range'_eq_cons_iff.1 rest.symm
      simp only [List.mem_range'_1]
      omega
    exact onGrid?_ne_none reads (exponent ▸ before fewer tried)

theorem Shortest.grid (hx : m.Shortest x) (hy : m.Shortest y) : x.exponent = y.exponent :=
  le_antisymm (hy.coarsest x hx.reads) (hx.coarsest y hy.reads)

/-- Two shortest decimals would both be even, so a nearer one would stand between them. -/
theorem Shortest.unique (hx : m.Shortest x) (hy : m.Shortest y) : x = y := by
  by_contra apart
  have grid := hx.grid hy
  have equal : |y.value - m.value| = |x.value - m.value| :=
    le_antisymm (hy.nearest x grid hx.reads) (hx.nearest y grid.symm hy.reads)
  have evenX := hx.even y grid.symm hy.reads (Ne.symm apart) equal
  have evenY := hy.even x grid hx.reads apart equal.symm
  obtain ⟨middle, sum⟩ : ∃ middle, x.significand + y.significand = 2 * middle :=
    ⟨(x.significand + y.significand) / 2, by omega⟩
  have opposite : x.value + y.value = 2 * m.value := by
    rcases abs_eq_abs.1 equal with same | opposite
    · exact absurd (Decimal.ext_value grid (by linarith)) apart
    · linarith
  have exact : (Decimal.mk middle x.exponent).value = m.value := by
    have double : (x.significand : ℚ) + y.significand = 2 * middle := by exact_mod_cast sum
    simp only [Decimal.value, ← grid] at opposite ⊢
    rw [← add_mul, double] at opposite
    linarith
  have least := hx.nearest ⟨middle, x.exponent⟩ rfl (exact ▸ m.nearestTo_value)
  rw [exact, sub_self, abs_zero, abs_nonpos_iff, sub_eq_zero] at least
  exact apart (Decimal.ext_value grid (by linarith))

theorem Shortest.significand_mod (shortest : m.Shortest x) : x.significand % 10 ≠ 0 := by
  intro zero
  have same : (Decimal.mk (x.significand / 10) (x.exponent + 1)).value = x.value := by
    have tenfold : (x.significand : ℚ) = (x.significand / 10 : Nat) * 10 := by
      exact_mod_cast (Nat.div_mul_cancel (Nat.dvd_of_mod_eq_zero zero)).symm
    rw [Decimal.value, Decimal.value, tenfold, zpow_add_one₀ (by norm_num)]
    ring
  have coarser := shortest.coarsest _ (same ▸ shortest.reads)
  dsimp only at coarser
  omega

end Shortest

end Magnitude

end SpeechMarkup
