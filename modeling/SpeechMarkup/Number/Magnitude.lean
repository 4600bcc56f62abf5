/-! The magnitudes of double-precision numbers.
All of them, zero and infinity included, stand in one increasing row, and a magnitude is known by its rank in
that row: the number that its 63 bits without the sign spell. `size` says how far out a rank lies, in whole
units of the least positive magnitude, so that rounding compares natural numbers only. -/

namespace SpeechMarkup

namespace Magnitude

/-- How many magnitudes there are from a power of two to the next, which are `2 ^ 52`. -/
def binade : Nat := 0x10000000000000

def topRank : Nat := 0x7FF * binade

/-- The least positive magnitude is `2 ^ -depth`; it is the unit that sizes are counted in. -/
def depth : Nat := 1074

/-- The distance of a rank from zero, in units of `2 ^ -depth`. Infinity counts as `2 ^ 1024`, the number that
would come next. -/
def size (rank : Nat) : Nat :=
  if rank < binade then rank else (binade + rank % binade) <<< (rank / binade - 1)

def rankBelow (units : Nat) : Nat :=
  let shift := units.log2 - 52
  shift * binade + units >>> shift

/-- The rank nearest to `n / d` units; of two equally near the even one. -/
def nearestRank (n d : Nat) : Nat :=
  let rank := rankBelow (n / d)
  let middle := (size rank + size (rank + 1)) * d
  if 2 * n < middle then rank
  else if middle < 2 * n then rank + 1
  else if rank % 2 = 0 then rank else rank + 1

theorem size_of_lt {rank : Nat} (h : rank < binade) : size rank = rank := if_pos h

theorem size_of_le {rank : Nat} (h : binade ≤ rank) :
    size rank = (binade + rank % binade) <<< (rank / binade - 1) :=
  if_neg (Nat.not_lt.2 h)

theorem size_lt_size_succ (rank : Nat) : size rank < size (rank + 1) := by
  by_cases small : rank + 1 < binade
  · rw [size_of_lt small, size_of_lt (Nat.lt_of_succ_lt small)]
    exact Nat.lt_succ_self rank
  · rw [size_of_le (Nat.not_lt.1 small), Nat.shiftLeft_eq]
    by_cases last : rank + 1 = binade
    · rw [size_of_lt (last ▸ Nat.lt_succ_self rank), last]
      simp only [binade] at last ⊢
      omega
    · rw [size_of_le (by omega), Nat.shiftLeft_eq]
      simp only [binade] at small last ⊢
      by_cases carry : rank % 0x10000000000000 + 1 = 0x10000000000000
      · rw [show (rank + 1) % 0x10000000000000 = 0 by omega,
          show (rank + 1) / 0x10000000000000 - 1 = rank / 0x10000000000000 - 1 + 1 by omega, Nat.pow_succ]
        have := Nat.two_pow_pos (rank / 0x10000000000000 - 1)
        generalize 2 ^ (rank / 0x10000000000000 - 1) = step at *
        rw [Nat.mul_comm step, ← Nat.mul_assoc]
        exact Nat.mul_lt_mul_of_pos_right (by omega) this
      · rw [show (rank + 1) % 0x10000000000000 = rank % 0x10000000000000 + 1 by omega,
          show (rank + 1) / 0x10000000000000 = rank / 0x10000000000000 by omega]
        exact Nat.mul_lt_mul_of_pos_right (by omega) (Nat.two_pow_pos _)

theorem log2_shiftLeft {n : Nat} (h : 0 < n) (shift : Nat) : (n <<< shift).log2 = n.log2 + shift := by
  obtain ⟨above, below⟩ := (Nat.log2_eq_iff (Nat.ne_of_gt h)).1 rfl
  rw [Nat.shiftLeft_eq]
  refine (Nat.log2_eq_iff (Nat.ne_of_gt (Nat.mul_pos h (Nat.two_pow_pos shift)))).2 ⟨?_, ?_⟩
  · rw [Nat.pow_add]
    exact Nat.mul_le_mul_right _ above
  · rw [Nat.add_right_comm, Nat.pow_add]
    exact Nat.mul_lt_mul_of_pos_right below (Nat.two_pow_pos shift)

theorem rankBelow_size (rank : Nat) : rankBelow (size rank) = rank := by
  by_cases h : rank < binade
  · rw [size_of_lt h, rankBelow]
    have : rank.log2 - 52 = 0 := by
      by_cases zero : rank = 0
      · rw [zero]; rfl
      · have := (Nat.log2_lt zero).2 (show rank < 2 ^ 52 from h)
        omega
    simp [this]
  · rw [size_of_le (Nat.not_lt.1 h), rankBelow]
    simp only [binade] at h ⊢
    have : (0x10000000000000 + rank % 0x10000000000000).log2 = 52 := (Nat.log2_eq_iff (by omega)).2 (by omega)
    rw [log2_shiftLeft (by omega), this, Nat.add_sub_cancel_left, Nat.shiftLeft_shiftRight]
    omega

theorem nearestRank_size {d : Nat} (rank : Nat) (h : 0 < d) : nearestRank (size rank * d) d = rank := by
  simp only [nearestRank, Nat.mul_div_cancel _ h, rankBelow_size]
  have := Nat.mul_lt_mul_of_pos_right (size_lt_size_succ rank) h
  rw [if_pos (by rw [Nat.add_mul]; omega)]

end Magnitude

structure Magnitude where
  rank : Nat
  rank_le : rank ≤ Magnitude.topRank
deriving DecidableEq

namespace Magnitude

def unitsPerOne : Nat := 1 <<< depth

def zero : Magnitude := ⟨0, Nat.zero_le _⟩

def infinity : Magnitude := ⟨topRank, Nat.le_refl _⟩

/-- The magnitude nearest to `n / d` units of `2 ^ -depth`. From halfway between the last finite magnitude and
`2 ^ 1024` on this is infinity. -/
def nearest (n d : Nat) : Magnitude :=
  ⟨min (nearestRank n d) topRank, Nat.min_le_right _ _⟩

def ofNat (n : Nat) : Magnitude :=
  nearest (n * unitsPerOne) 1

def units (m : Magnitude) : Nat :=
  size m.rank

theorem units_pos {m : Magnitude} (h : m ≠ .zero) : 0 < m.units := by
  obtain ⟨rank, le⟩ := m
  have positive : 0 < rank := Nat.pos_of_ne_zero fun zero => h (by simp [zero, Magnitude.zero])
  simp only [units, size]
  split
  · exact positive
  · rw [Nat.shiftLeft_eq]
    exact Nat.mul_pos (Nat.add_pos_left (by decide) _) (Nat.two_pow_pos _)

theorem nearest_units (m : Magnitude) {d : Nat} (h : 0 < d) : nearest (m.units * d) d = m := by
  obtain ⟨rank, le⟩ := m
  simp [nearest, units, nearestRank_size rank h, Nat.min_eq_left le]

def isFinite (m : Magnitude) : Bool :=
  m.rank < topRank

def scale (m : Magnitude) (factor : Nat) : Magnitude :=
  nearest (m.units * factor) 1

def mul (a b : Magnitude) : Magnitude :=
  nearest (a.units * b.units) unitsPerOne

def div (a b : Magnitude) : Magnitude :=
  nearest (a.units * unitsPerOne) b.units

end Magnitude

end SpeechMarkup
