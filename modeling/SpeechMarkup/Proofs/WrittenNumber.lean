import SpeechMarkup.Proofs.NumberRange

/-! What is written for a number is read as that number. Every place of a decimal is written out, so the text is a
numeral whose decimal is the written one, or the written one with its zeros before the point. A number of a range that
is saved from a refused text is therefore read back, with its unit, as a quantity inside the range. -/

namespace SpeechMarkup

namespace Numeral

theorem text_of_fraction {whole fraction : List Char} (h : fraction ≠ []) :
    text ⟨whole, fraction⟩ = whole ++ '.' :: fraction := by
  obtain ⟨c, rest, rfl⟩ := List.exists_cons_of_ne_nil h
  rfl

end Numeral

namespace Decimal

theorem isDigit_of_mem_digits {n : Nat} {c : Char} (h : c ∈ digits n) : c.isDigit = true :=
  Nat.isDigit_of_mem_toDigits (by decide) (by decide) h

theorem ofDigits_padded (n zeros : Nat) : ofDigits (List.replicate zeros '0' ++ digits n) = n := by
  rw [ofDigits_append, ofDigits_replicate_zero, Nat.zero_mul, Nat.zero_add, ofDigits_digits]

theorem ofDigits_shifted (n zeros : Nat) : ofDigits (digits n ++ List.replicate zeros '0') = n * tenTo zeros := by
  rw [ofDigits_append, ofDigits_replicate_zero, ofDigits_digits, List.length_replicate]
  rfl

def splitDigits (places : Nat) (digits : List Char) : Numeral :=
  let padded := List.replicate (places + 1 - digits.length) '0' ++ digits
  ⟨padded.take (padded.length - places), padded.drop (padded.length - places)⟩

def numeral (x : Decimal) : Numeral :=
  match x.exponent with
  | .ofNat zeros => ⟨digits x.significand ++ List.replicate zeros '0', []⟩
  | .negSucc places => splitDigits (places + 1) (digits x.significand)

theorem length_fraction_splitDigits (places : Nat) (digits : List Char) :
    (splitDigits places digits).fraction.length = places := by
  simp only [splitDigits, List.length_drop, List.length_append, List.length_replicate]
  omega

theorem wellFormed_splitDigits (places : Nat) {digits : List Char} (h : ∀ c ∈ digits, c.isDigit = true) :
    (splitDigits places digits).WellFormed := by
  have padded : ∀ c ∈ List.replicate (places + 1 - digits.length) '0' ++ digits, c.isDigit = true := by
    intro c hc
    rcases List.mem_append.1 hc with hc | hc
    · rw [List.eq_of_mem_replicate hc]
      rfl
    · exact h c hc
  refine ⟨?_, fun c hc => padded c (List.mem_of_mem_take hc), fun c hc => padded c (List.mem_of_mem_drop hc)⟩
  intro empty
  have := congrArg List.length empty
  simp only [splitDigits, List.length_take, List.length_append, List.length_replicate, List.length_nil] at this
  omega

theorem wellFormed_numeral (x : Decimal) : x.numeral.WellFormed := by
  unfold numeral
  split
  · next zeros _ =>
    refine ⟨by simp [digits, Nat.toDigits_ne_nil], fun c hc => ?_, by simp⟩
    rcases List.mem_append.1 hc with hc | hc
    · exact isDigit_of_mem_digits hc
    · rw [List.eq_of_mem_replicate hc]
      rfl
  · exact wellFormed_splitDigits _ fun c hc => isDigit_of_mem_digits hc

theorem text_numeral (x : Decimal) : x.numeral.text = x.positional := by
  obtain ⟨significand, zeros | places⟩ := x
  · rfl
  · have nonempty : (splitDigits (places + 1) (digits significand)).fraction ≠ [] := fun empty => by
      have length := length_fraction_splitDigits (places + 1) (digits significand)
      rw [empty] at length
      cases length
    exact Numeral.text_of_fraction nonempty

theorem decimal_splitDigits (n places : Nat) : (splitDigits places (digits n)).decimal = ⟨n, -places⟩ := by
  have kept : (splitDigits places (digits n)).whole ++ (splitDigits places (digits n)).fraction =
      List.replicate (places + 1 - (digits n).length) '0' ++ digits n := List.take_append_drop _ _
  rw [Numeral.decimal, ofPlaces, kept, ofDigits_padded, length_fraction_splitDigits]

theorem toMagnitude_numeral {x : Decimal} (finite : x.toMagnitude ≠ .infinity) :
    x.numeral.decimal.toMagnitude = x.toMagnitude := by
  obtain ⟨significand, zeros | places⟩ := x
  · have read : (numeral ⟨significand, .ofNat zeros⟩).decimal = ⟨significand * tenTo zeros, 0⟩ := by
      simp only [numeral, Numeral.decimal, ofPlaces, List.append_nil, ofDigits_shifted]
      rfl
    rw [read]
    by_cases zero : significand = 0
    · simp [toMagnitude, zero]
    · have positive : significand * tenTo zeros ≠ 0 := Nat.mul_ne_zero zero (tenTo_pos zeros).ne'
      have near : ¬ 400 < zeros := fun far => finite (by simp [toMagnitude, zero, far])
      simp only [toMagnitude, if_neg zero, if_neg positive, if_neg near]
      rw [show tenTo 0 = 1 from rfl, Nat.mul_one]
      rfl
  · rw [numeral, decimal_splitDigits]
    rfl

end Decimal

theorem Magnitude.exists_numeral {m : Magnitude} (finite : m ≠ .infinity) :
    ∃ n : Numeral, n.WellFormed ∧ n.text = Binary64.magnitudeText m ∧ n.decimal.toMagnitude = m := by
  by_cases zero : m = .zero
  · subst zero
    exact ⟨⟨['0'], []⟩, ⟨by simp, by simp, by simp⟩, rfl, rfl⟩
  · have same := toMagnitude_shortest .up zero
    refine ⟨(m.shortest .up).numeral, Decimal.wellFormed_numeral _, ?_, ?_⟩
    · rw [Decimal.text_numeral, Binary64.magnitudeText, if_neg zero, if_neg finite]
    · have shortFinite : (m.shortest .up).toMagnitude ≠ .infinity := by rwa [same]
      rw [Decimal.toMagnitude_numeral shortFinite, same]

namespace Binary64

theorem isZero_signed (negative : Bool) (m : Magnitude) : (signed negative m).isZero = decide (m = .zero) := by
  obtain ⟨rank, le⟩ := m
  cases negative <;> simp [isZero, place?, Magnitude.zero]

theorem lt_zero_signed (negative : Bool) (m : Magnitude) :
    (signed negative m).lt zero = (negative && decide (m ≠ .zero)) := by
  obtain ⟨rank, le⟩ := m
  cases negative <;> simp [lt, place?, zero, Magnitude.zero, Nat.pos_iff_ne_zero]

/-- The same number with a positive sign on zero. -/
def plainZero (x : Binary64) : Binary64 :=
  if x.isZero then zero else x

theorem value?_plainZero (x : Binary64) : x.plainZero.value? = x.value? := by
  obtain _ | ⟨negative, m⟩ := x
  · rfl
  · rw [plainZero, isZero_signed]
    by_cases isZero : m = .zero
    · cases negative <;> simp [isZero, value?, zero, Magnitude.value_zero]
    · simp [isZero]

def sign (x : Binary64) : Option Sign :=
  if x.lt zero then some .minus else none

/-- A finite number with a unit is written as a quantity. -/
theorem exists_text (negative : Bool) {m : Magnitude} (finite : m ≠ .infinity) (unit : String) :
    ∃ n : Numeral, n.WellFormed ∧
      ((signed negative m).text ++ unit).toList = Signed.text (signed negative m).sign n unit.toList ∧
        Signed.number (signed negative m).sign n = (signed negative m).plainZero := by
  obtain ⟨n, wellFormed, written, read⟩ := m.exists_numeral finite
  refine ⟨n, wellFormed, ?_⟩
  rw [sign, lt_zero_signed, plainZero, isZero_signed]
  by_cases isZero : m = .zero
  · subst isZero
    simp [text, Signed.text, Sign.text, written, Signed.number, Decimal.toBinary64, read, zero]
  · cases negative <;>
      simp [text, Signed.text, Sign.text, written, Signed.number, Decimal.toBinary64, read, isZero]

def shownSign (x : Binary64) : Sign :=
  if x.lt zero then .minus else .plus

theorem exists_signedText (negative : Bool) {m : Magnitude} (finite : m ≠ .infinity) (unit : String) :
    ∃ n : Numeral, n.WellFormed ∧
      ((signed negative m).signedText unit).toList =
        Signed.text (some (signed negative m).shownSign) n unit.toList ∧
          Signed.number (some (signed negative m).shownSign) n = (signed negative m).plainZero := by
  obtain ⟨n, wellFormed, written, number⟩ := exists_text negative finite unit
  refine ⟨n, wellFormed, ?_⟩
  unfold signedText shownSign
  rw [sign] at written number
  cases below : (signed negative m).lt zero with
  | true =>
    simp only [below, if_true] at written number ⊢
    exact ⟨written, number⟩
  | false =>
    simp only [below, Bool.false_eq_true, if_false] at written number ⊢
    refine ⟨?_, number⟩
    rw [String.append_assoc, String.toList_append, written]
    rfl

end Binary64

end SpeechMarkup
