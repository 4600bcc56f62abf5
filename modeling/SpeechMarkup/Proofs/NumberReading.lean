import SpeechMarkup.Proofs.ValueTree

/-! Numbers read back from their canonical texts. An integer comes back if 64 bits hold it. A float is read by one
product or one quotient, and where both of its factors are doubles that is the double nearest to what is written; so a
float comes back whose text has a significand and a power of ten that are doubles. -/

namespace SpeechMarkup

namespace Magnitude

theorem nearestTo_mul (a b : Magnitude) : (a.mul b).NearestTo (a.value * b.value) := by
  have units : 0 < unitsPerOne := by exact_mod_cast unitsPerOne_pos
  have rounded := nearestTo_nearest (a.units * b.units) units
  rwa [Nat.cast_mul, mul_div_mul_comm] at rounded

theorem nearestTo_div (a : Magnitude) {b : Magnitude} (some : b ≠ zero) : (a.div b).NearestTo (a.value / b.value) := by
  have rounded := nearestTo_nearest (a.units * unitsPerOne) (units_pos some)
  have one := unitsPerOne_pos.ne'
  rwa [Nat.cast_mul, mul_div_mul_right _ _ one, ← div_div_div_cancel_right₀ one] at rounded

theorem div_one (m : Magnitude) : m.div (ofNat 1) = m := by
  have one : (ofNat 1).units = unitsPerOne := by decide +kernel
  rw [div, one]
  exact nearest_units m (by exact_mod_cast unitsPerOne_pos)

theorem NearestTo.ne_infinity {m : Magnitude} {q : ℚ} (nearest : m.NearestTo q) (nonneg : 0 ≤ q)
    (small : 2 * q < infinity.value) : m ≠ infinity := by
  rintro rfl
  have closer := nearest.nearest zero
  rw [value_zero, zero_sub, abs_neg, abs_of_nonneg nonneg, abs_of_nonneg (by linarith)] at closer
  linarith

/-- A number with at most 53 binary places is itself a double. -/
theorem value_ofNat_of_le {n : Nat} (few : n ≤ 2 ^ 53) : (ofNat n).value = n := by
  obtain ⟨m, units⟩ : ∃ m : Magnitude, m.units = n * unitsPerOne := by
    by_cases some : n = 0
    · subst some
      exact ⟨zero, by decide +kernel⟩
    obtain ⟨least, most⟩ := (Nat.log2_eq_iff some).1 rfl
    obtain ⟨fill, places⟩ : ∃ fill, fill = 52 - n.log2 := ⟨_, rfl⟩
    have enough : binade ≤ n * 2 ^ fill :=
      calc binade ≤ 2 ^ n.log2 * 2 ^ fill := by
            rw [← pow_add]
            exact Nat.pow_le_pow_right two_pos (by omega : 52 ≤ n.log2 + fill)
        _ ≤ n * 2 ^ fill := Nat.mul_le_mul_right _ least
    have limit : n * 2 ^ fill ≤ 2 * binade := by
      by_cases full : fill = 0
      · simpa [full, binade] using few
      · calc n * 2 ^ fill ≤ 2 ^ (n.log2 + 1) * 2 ^ fill := Nat.mul_le_mul_right _ most.le
          _ = 2 * binade := by rw [← pow_add, (by omega : n.log2 + 1 + fill = 53)]; rfl
    obtain ⟨shift, split⟩ : ∃ shift, fill + shift = depth := ⟨depth - fill, by simp only [depth]; omega⟩
    refine ⟨⟨shift * binade + n * 2 ^ fill, ?_⟩, ?_⟩
    · have top : shift * binade ≤ depth * binade := Nat.mul_le_mul_right binade (by omega)
      simp only [topRank, depth] at top ⊢
      omega
    · rw [units, size_of_steps enough limit, mul_assoc, ← pow_add, split, unitsPerOne, Nat.shiftLeft_eq, one_mul]
  have exact : ofNat n = m := by
    rw [ofNat, ← units, ← mul_one m.units]
    exact nearest_units m one_pos
  rw [exact, value_of_units units]

end Magnitude

namespace Json

namespace NumberText

open Magnitude (ofNat)

variable {n : NumberText} {x : Decimal}

theorem value_powerOfTen {places : Nat} (few : places ≤ 22) : (powerOfTen places).value = Decimal.tenTo places := by
  have units : ∀ places ≤ 22, (powerOfTen places).units = Decimal.tenTo places * Magnitude.unitsPerOne := by
    decide +kernel
  exact Magnitude.value_of_units (units places few)

/-- A decimal with a significand and a power of ten that are doubles. -/
structure Short (x : Decimal) : Prop where
  significand : x.significand ≤ 2 ^ 53
  least : -22 ≤ x.exponent
  greatest : x.exponent ≤ 22

theorem lt_infinity_of_short {significand places : Nat} (few : significand ≤ 2 ^ 53) (near : places ≤ 22) :
    2 * (significand * Decimal.tenTo places : ℚ) < Magnitude.infinity.value := by
  have bound : 2 * (2 ^ 53 * Decimal.tenTo 22) * Magnitude.unitsPerOne < Magnitude.infinity.units := by decide +kernel
  have product : significand * Decimal.tenTo places ≤ 2 ^ 53 * Decimal.tenTo 22 :=
    Nat.mul_le_mul few (Decimal.tenTo_le near)
  rw [Magnitude.value, lt_div_iff₀ Magnitude.unitsPerOne_pos]
  exact_mod_cast (Nat.mul_le_mul_right _ (Nat.mul_le_mul_left 2 product)).trans_lt bound

theorem nearestTo_magnitude (short : Short x) : ∃ m, magnitude x = .ok m ∧ m.NearestTo x.value := by
  obtain ⟨significand, exponent⟩ := x
  obtain ⟨few, least, greatest⟩ := short
  have exact := Magnitude.value_ofNat_of_le few
  dsimp only at few least greatest exact
  cases exponent with
  | ofNat places =>
    have near : places ≤ 22 := by simpa using greatest
    rw [Decimal.value_ofNat, ← exact, ← value_powerOfTen near]
    simp only [magnitude]
    by_cases zero : ofNat significand = .zero
    · refine ⟨.zero, if_pos zero, ?_⟩
      rw [zero, Magnitude.value_zero, zero_mul, ← Magnitude.value_zero]
      exact Magnitude.zero.nearestTo_value
    have rounded := Magnitude.nearestTo_mul (ofNat significand) (powerOfTen places)
    refine ⟨_, ?_, rounded⟩
    have finite : (ofNat significand).mul (powerOfTen places) ≠ .infinity := by
      refine rounded.ne_infinity (mul_nonneg (Magnitude.value_nonneg _) (Magnitude.value_nonneg _)) ?_
      rw [exact, value_powerOfTen near]
      exact lt_infinity_of_short few near
    rw [if_neg zero, if_neg (Nat.not_lt.2 (near.trans (by decide))), if_neg finite]
  | negSucc places =>
    have near : places + 1 ≤ 22 := by omega
    have positive : powerOfTen (places + 1) ≠ .zero := by
      intro zero
      have value := value_powerOfTen near
      rw [zero, Magnitude.value_zero, eq_comm, Nat.cast_eq_zero] at value
      exact (Decimal.tenTo_pos _).ne' value
    have first : min (places + 1) largestStep = places + 1 := Nat.min_eq_left (near.trans (by decide))
    rw [Decimal.value_negSucc, ← exact, ← value_powerOfTen near]
    refine ⟨_, ?_, Magnitude.nearestTo_div (ofNat significand) positive⟩
    simp only [magnitude, first, Nat.sub_self, Nat.zero_min]
    exact congrArg Except.ok (Magnitude.div_one _)

/-- The number that is written, digits and exponent together. -/
def written (n : NumberText) : Decimal :=
  ⟨Decimal.ofDigits (n.whole ++ n.fraction.getD []), n.writtenExponent - (n.fraction.getD []).length⟩

theorem gather_of_le (significand : Nat) (ds : List Char)
    (few : significand * 10 ^ ds.length + Decimal.ofDigits ds ≤ mostSignificant) :
    gather significand ds = (significand * 10 ^ ds.length + Decimal.ofDigits ds, []) := by
  induction ds generalizing significand with
  | nil => simp [gather, Decimal.ofDigits_nil]
  | cons d ds ih =>
    have same : significand * 10 ^ (d :: ds).length + Decimal.ofDigits (d :: ds) =
        (10 * significand + (d.toNat - '0'.toNat)) * 10 ^ ds.length + Decimal.ofDigits ds := by
      rw [Decimal.ofDigits_cons, List.length_cons]
      ring
    rw [same] at few ⊢
    have next : 10 * significand + (d.toNat - '0'.toNat) ≤ mostSignificant := by
      refine le_trans ?_ few
      exact (Nat.le_mul_of_pos_right _ (by positivity)).trans (Nat.le_add_right _ _)
    rw [gather, if_neg (Nat.not_lt.2 next), ih _ few]

theorem parts_of_le (few : n.written.significand ≤ mostSignificant) : n.parts = n.written := by
  simp only [written, Decimal.ofDigits_append] at few ⊢
  have whole : gather 0 n.whole = (Decimal.ofDigits n.whole, []) := by
    have less : Decimal.ofDigits n.whole ≤ mostSignificant :=
      ((Nat.le_mul_of_pos_right _ (by positivity)).trans (Nat.le_add_right _ _)).trans few
    simpa using gather_of_le 0 n.whole (by simpa using less)
  simp only [parts, whole, gather_of_le _ _ few]
  simp only [List.length_nil]
  congr 1
  ring

theorem nearestTo_value (float : n.integer? = none) (short : Short n.written) :
    ∃ m, n.value = .ok (.float (.signed n.negative m)) ∧ m.NearestTo n.written.value := by
  have few : n.written.significand ≤ mostSignificant := short.significand.trans (by decide)
  obtain ⟨m, read, nearest⟩ := nearestTo_magnitude short
  refine ⟨m, ?_, nearest⟩
  rw [value, float]
  simp only [parts_of_le few, read]
  rfl

end NumberText

theorem NumberText.Spells.unique {n n' : NumberText} {token : List Char} (h : n.Spells token) (h' : n'.Spells token) :
    n = n' := by
  have read {n : NumberText} (h : n.Spells token) : NumberText.scan .endOfValue (token ++ []) = .ok (n, []) :=
    scan_append h (by simp [Follows])
  have same := (read h).symm.trans (read h')
  exact congrArg Prod.fst (Except.ok.inj same)

theorem exists_fractionText {a : Numeral} (digits : ∀ c ∈ a.fraction, c.isDigit = true) :
    ∃ f token, FractionText f token ∧ a.text = a.whole ++ token ∧ f.getD [] = a.fraction := by
  obtain ⟨whole, _ | ⟨c, later⟩⟩ := a
  · exact ⟨none, [], .none, (List.append_nil whole).symm, rfl⟩
  · exact ⟨some (c :: later), _, .some ⟨List.cons_ne_nil _ _, digits⟩, rfl, rfl⟩

/-- The text of a float spells the number that it is the text of, and no integer. -/
theorem FloatText.exists_spells {q : ℚ} {text : List Char} (h : FloatText q text) (negative : Bool) :
    ∃ n : NumberText, n.negative = negative ∧ n.Spells (minus negative ++ text) ∧ n.integer? = none ∧
      n.written.value = q := by
  cases h with
  | @places a _ whole fraction _ value =>
    let n : NumberText := ⟨negative, a.whole, some a.fraction, none⟩
    refine ⟨n, rfl, ?_, by simp [n, NumberText.integer?], ?_⟩
    · rw [Numeral.text_of_fraction fraction.1, ← List.append_nil ('.' :: a.fraction)]
      exact .intro (n := n) whole.digits whole.zero (.some fraction) .none
    · rw [← value, ← a.value_decimal]
      simp [n, NumberText.written, NumberText.writtenExponent, Numeral.decimal, Decimal.ofPlaces]
  | @power a _ e ds _ _ whole _ fraction _ value exponent =>
    obtain ⟨f, token, fractional, text, shown⟩ := exists_fractionText fraction
    let n : NumberText := ⟨negative, a.whole, f, some (e < 0, ds)⟩
    have exponential : ExponentText n.exponent ('e' :: (if e < 0 then '-' else '+') :: ds) := by
      by_cases below : e < 0
      · simp only [n, below, decide_true, if_true]
        exact .minus (.inl rfl) exponent.whole.digits
      · simp only [n, below, decide_false, if_false]
        exact .plus (.inl rfl) exponent.whole.digits
    refine ⟨n, rfl, ?_, by simp [n, NumberText.integer?], ?_⟩
    · rw [text, List.append_assoc]
      exact .intro (n := n) whole.digits whole.zero fractional exponential
    · have places : n.writtenExponent = e := by
        simp only [n, NumberText.writtenExponent, exponent.value, decide_eq_true_eq]
        split <;> omega
      rw [← value, ← a.value_decimal, Decimal.value, Decimal.value, NumberText.written, places]
      simp only [n, shown, Numeral.decimal, Decimal.ofPlaces]
      rw [mul_assoc, ← zpow_add₀ (by norm_num), sub_eq_add_neg, add_comm e]

namespace Number.Canonical

variable {n : NumberText} {text : List Char} {negative : Bool} {m : Magnitude}

theorem exists_spells (canonical : Canonical (.float (.signed negative m)) text) (finite : m ≠ .infinity) :
    ∃ n : NumberText, n.negative = negative ∧ n.Spells text ∧ n.integer? = none ∧ m.NearestTo n.written.value := by
  cases canonical with
  | zero =>
    let n : NumberText := ⟨negative, ['0'], some ['0'], none⟩
    have value : n.written.value = Magnitude.zero.value := by
      have digits : n.written.significand = 0 := rfl
      rw [Decimal.value, digits, Nat.cast_zero, zero_mul, Magnitude.value_zero]
    have spells : n.Spells (minus negative ++ ['0', '.', '0']) :=
      .intro (n := n) ⟨by simp [n], by simp [n]⟩ (fun _ => rfl) (.some ⟨by simp, by simp⟩) .none
    exact ⟨n, rfl, spells, rfl, value ▸ Magnitude.zero.nearestTo_value⟩
  | float _ _ _ shortest text =>
    obtain ⟨n, sign, spells, float, value⟩ := text.exists_spells negative
    exact ⟨n, sign, spells, float, value ▸ shortest.reads⟩
  | infinity => exact absurd rfl finite

/-- A float is read back from its text, if what is written there has a significand and a power of ten that are
doubles. -/
theorem takes_float (canonical : Canonical (.float (.signed negative m)) text) (finite : m ≠ .infinity)
    (spells : n.Spells text) (short : NumberText.Short n.written) :
    Takes Head.read (.scalar ⟨text, canonical.isScalar⟩) (.number (.float (.signed negative m))) := by
  obtain ⟨n', sign, spells', float, nearest⟩ := canonical.exists_spells finite
  obtain rfl := spells.unique spells'
  obtain ⟨m', read, nearest'⟩ := NumberText.nearestTo_value float short
  obtain rfl := nearest'.unique nearest
  subst sign
  exact takes_number spells read

/-- An integer that 64 bits hold is read back from its text. -/
theorem takes_integer {i : Int} (canonical : Canonical (.integer i) text) (least : -2 ^ 63 ≤ i) (most : i < 2 ^ 64) :
    Takes Head.read (.scalar ⟨text, canonical.isScalar⟩) (.number (.integer i)) := by
  cases canonical with
  | @integer _ ds whole =>
    let n : NumberText := ⟨i < 0, ds, none, none⟩
    have spells : n.Spells (minus (i < 0) ++ (ds ++ [])) :=
      .intro (n := n) whole.whole.digits whole.whole.zero .none .none
    rw [List.append_nil] at spells
    have value : n.integer? = some i := by
      have held : ¬NumberText.mostSignificant < i.natAbs := by
        simp only [NumberText.mostSignificant, UInt64.size]
        omega
      simp only [n, NumberText.integer?, whole.value, Option.isSome_none, Bool.or_self, Bool.false_eq_true, if_false,
        decide_eq_true_eq, Bool.or_eq_true, if_neg held]
      by_cases below : i < 0
      · have some : ¬(i.natAbs = 0 ∨ Binary64.signBit < i.natAbs) := by
          simp only [Binary64.signBit]
          omega
        rw [if_pos below, if_neg some, Int.ofNat_natAbs_of_nonpos below.le, neg_neg]
      · rw [if_neg below, Int.natAbs_of_nonneg (not_lt.1 below)]
    exact takes_number spells (by rw [NumberText.value, value])

end Number.Canonical

end Json

end SpeechMarkup
