import Mathlib.Algebra.Order.Floor.Semifield
import Mathlib.Data.Rat.Floor
import Mathlib.Tactic.FieldSimp
import Mathlib.Tactic.Linarith
import Mathlib.Tactic.Positivity
import SpeechMarkup.Quantity.Numeral

/-! The grammar `<digits>[.<digits>]` beside its reader. A well-formed numeral has digits only, and some before the
point; its text shows the point where digits stand behind it. Reading accepts exactly the texts of well-formed
numerals. The value of a numeral is an exact rational, and a thousand times a numeral is cut, not rounded. -/

namespace SpeechMarkup

theorem isDigits_iff {cs : List Char} : isDigits cs = true ↔ cs ≠ [] ∧ ∀ c ∈ cs, c.isDigit = true := by
  simp [isDigits]

theorem ne_point_of_isDigit {c : Char} (h : c.isDigit = true) : c ≠ '.' := by
  rintro rfl
  simp [Char.isDigit] at h

theorem span_at_point {before : List Char} (h : ∀ c ∈ before, c ≠ '.') (behind : List Char) :
    (before ++ '.' :: behind).takeWhile (· ≠ '.') = before ∧
      (before ++ '.' :: behind).dropWhile (· ≠ '.') = '.' :: behind := by
  have passes : ∀ c ∈ before, decide (c ≠ '.') = true := fun c hc => decide_eq_true (h c hc)
  rw [List.takeWhile_append_of_pos passes, List.dropWhile_append_of_pos passes]
  simp

theorem span_without_point {cs : List Char} (h : ∀ c ∈ cs, c ≠ '.') :
    cs.takeWhile (· ≠ '.') = cs ∧ cs.dropWhile (· ≠ '.') = [] := by
  have passes : ∀ c ∈ cs, decide (c ≠ '.') = true := fun c hc => decide_eq_true (h c hc)
  have taken : (cs ++ []).takeWhile (· ≠ '.') = cs ++ [] := List.takeWhile_append_of_pos passes
  have dropped : (cs ++ []).dropWhile (· ≠ '.') = [] := List.dropWhile_append_of_pos passes
  rw [List.append_nil] at taken dropped
  exact ⟨taken, dropped⟩

theorem point_of_dropWhile {cs rest : List Char} {c : Char} (h : cs.dropWhile (· ≠ '.') = c :: rest) : c = '.' := by
  induction cs with
  | nil => cases h
  | cons d cs ih =>
    by_cases point : d = '.'
    · subst point
      simpa using (List.cons.inj h).1.symm
    · have passes : decide (d ≠ '.') = true := decide_eq_true point
      rw [List.dropWhile_cons, if_pos passes] at h
      exact ih h

namespace Decimal

theorem ofDigits_append (a b : List Char) : ofDigits (a ++ b) = ofDigits a * 10 ^ b.length + ofDigits b := by
  rw [ofDigits, Nat.ofDigitChars_append, Nat.ofDigitChars_eq_ofDigitChars_zero, Nat.mul_comm]
  rfl

theorem ofDigits_cons (c : Char) (cs : List Char) :
    ofDigits (c :: cs) = (c.toNat - '0'.toNat) * 10 ^ cs.length + ofDigits cs := by
  have h := ofDigits_append [c] cs
  simpa [ofDigits, Nat.ofDigitChars_cons] using h

theorem ofDigits_nil : ofDigits [] = 0 := rfl

theorem ofDigits_replicate_zero (k : Nat) : ofDigits (List.replicate k '0') = 0 := by
  rw [ofDigits, Nat.ofDigitChars_replicate_zero, Nat.mul_zero]

theorem ofDigits_lt {cs : List Char} (h : ∀ c ∈ cs, c.isDigit = true) : ofDigits cs < 10 ^ cs.length := by
  induction cs with
  | nil => decide
  | cons c cs ih =>
    have tail := ih fun d hd => h d (List.mem_cons_of_mem _ hd)
    have digit : c.toNat - '0'.toNat ≤ 9 := by
      have := h c List.mem_cons_self
      simp only [Char.isDigit, Bool.and_eq_true, decide_eq_true_eq, ge_iff_le, UInt32.le_iff_toNat_le] at this
      have zero : '0'.toNat = 48 := rfl
      have nine : c.toNat ≤ 57 := this.2
      omega
    rw [ofDigits_cons, List.length_cons, pow_succ]
    have := Nat.mul_le_mul_right (10 ^ cs.length) digit
    omega

end Decimal

namespace Numeral

structure WellFormed (n : Numeral) : Prop where
  whole_ne_nil : n.whole ≠ []
  whole : ∀ c ∈ n.whole, c.isDigit = true
  fraction : ∀ c ∈ n.fraction, c.isDigit = true

def text : Numeral → List Char
  | ⟨whole, []⟩ => whole
  | ⟨whole, c :: fraction⟩ => whole ++ '.' :: c :: fraction

def value (n : Numeral) : ℚ :=
  (n.decimal.significand : ℚ) / 10 ^ n.fraction.length

theorem read?_text {n : Numeral} (h : n.WellFormed) : read? n.text = some n := by
  obtain ⟨whole, fraction⟩ := n
  have before : ∀ c ∈ whole, c ≠ '.' := fun c hc => ne_point_of_isDigit (h.whole c hc)
  have digits : isDigits whole = true := isDigits_iff.2 ⟨h.whole_ne_nil, h.whole⟩
  cases fraction with
  | nil =>
    obtain ⟨all, none⟩ := span_without_point before
    simp only [text, read?, all, none, digits, if_true]
  | cons c fraction =>
    obtain ⟨all, rest⟩ := span_at_point before (c :: fraction)
    have behind : isDigits (c :: fraction) = true := isDigits_iff.2 ⟨List.cons_ne_nil _ _, h.fraction⟩
    simp only [text, read?, all, rest, digits, behind, Bool.and_self, if_true]

theorem wellFormed_of_read? {cs : List Char} {n : Numeral} (h : read? cs = some n) :
    n.WellFormed ∧ n.text = cs := by
  have split : cs.takeWhile (· ≠ '.') ++ cs.dropWhile (· ≠ '.') = cs := List.takeWhile_append_dropWhile
  simp only [read?] at h
  split at h
  · next ends =>
    split at h
    · next digits =>
      cases h
      obtain ⟨nonempty, all⟩ := isDigits_iff.1 digits
      rw [ends, List.append_nil] at split
      exact ⟨⟨nonempty, all, by simp⟩, split⟩
    · cases h
  · next point fraction ends =>
    split at h
    · next digits =>
      cases h
      obtain ⟨before, behind⟩ := Bool.and_eq_true_iff.1 digits
      obtain ⟨nonempty, all⟩ := isDigits_iff.1 before
      obtain ⟨nonemptyBehind, allBehind⟩ := isDigits_iff.1 behind
      refine ⟨⟨nonempty, all, allBehind⟩, ?_⟩
      obtain ⟨c, rest, rfl⟩ := List.exists_cons_of_ne_nil nonemptyBehind
      rw [ends, point_of_dropWhile ends] at split
      exact split
    · cases h

theorem read?_eq_some_iff {cs : List Char} {n : Numeral} : read? cs = some n ↔ n.WellFormed ∧ n.text = cs := by
  constructor
  · exact wellFormed_of_read?
  · rintro ⟨wellFormed, rfl⟩
    exact read?_text wellFormed

theorem mem_text {n : Numeral} (h : n.WellFormed) {c : Char} (hc : c ∈ n.text) : c.isDigit = true ∨ c = '.' := by
  obtain ⟨whole, _ | ⟨d, fraction⟩⟩ := n
  · exact .inl (h.whole c hc)
  · simp only [text, List.mem_append, List.mem_cons] at hc
    rcases hc with hc | rfl | hc
    · exact .inl (h.whole c hc)
    · exact .inr rfl
    · exact .inl (h.fraction c (List.mem_cons.2 hc))

/-- The digits that stay of a fraction, and those that are cut off behind them. -/
theorem ofDigits_three_places {fraction : List Char} (h : ∀ c ∈ fraction, c.isDigit = true) :
    Decimal.ofDigits ((fraction ++ ['0', '0', '0']).take 3) =
      Decimal.ofDigits fraction * 1000 / 10 ^ fraction.length := by
  match fraction, h with
  | [], _ => rfl
  | [a], _ =>
    simp only [List.cons_append, List.nil_append, List.take_succ_cons, List.take_zero, List.length_cons,
      List.length_nil, Decimal.ofDigits_cons, Decimal.ofDigits_nil]
    omega
  | [a, b], _ =>
    simp only [List.cons_append, List.nil_append, List.take_succ_cons, List.take_zero, List.length_cons,
      List.length_nil, Decimal.ofDigits_cons, Decimal.ofDigits_nil]
    omega
  | a :: b :: c :: rest, h =>
    have cut : Decimal.ofDigits rest < 10 ^ rest.length :=
      Decimal.ofDigits_lt fun d hd => h d (by simp [hd])
    have kept : ((a :: b :: c :: rest) ++ ['0', '0', '0']).take 3 = [a, b, c] := by simp
    have whole : Decimal.ofDigits (a :: b :: c :: rest) =
        Decimal.ofDigits [a, b, c] * 10 ^ rest.length + Decimal.ofDigits rest :=
      Decimal.ofDigits_append [a, b, c] rest
    have size : 10 ^ (a :: b :: c :: rest).length = 10 ^ rest.length * 1000 := by
      simp only [List.length_cons]
      ring
    rw [kept, whole, size, Nat.mul_div_mul_right _ _ (by decide)]
    rw [Nat.mul_comm, Nat.mul_add_div (Nat.pos_of_ne_zero (by positivity)), Nat.div_eq_of_lt cut, Nat.add_zero]

theorem thousandfold_eq_div {n : Numeral} (h : n.WellFormed) :
    n.thousandfold = n.decimal.significand * 1000 / 10 ^ n.fraction.length := by
  obtain ⟨whole, fraction⟩ := n
  have three : ((fraction ++ ['0', '0', '0']).take 3).length = 3 := by
    simp only [List.length_take, List.length_append, List.length_cons, List.length_nil]
    omega
  have digits : Decimal.ofDigits ((fraction ++ ['0', '0', '0']).take 3) =
      Decimal.ofDigits fraction * 1000 / 10 ^ fraction.length := ofDigits_three_places h.fraction
  have thousand : 10 ^ 3 = 1000 := rfl
  simp only [thousandfold, decimal, Decimal.ofPlaces]
  rw [Decimal.ofDigits_append, Decimal.ofDigits_append, three, thousand, digits, Nat.add_mul, Nat.mul_right_comm,
    Nat.add_comm, Nat.add_comm (Decimal.ofDigits whole * 1000 * _), Nat.add_mul_div_right _ _ (by positivity)]

theorem thousandfold_eq_floor {n : Numeral} (h : n.WellFormed) : n.thousandfold = ⌊1000 * n.value⌋₊ := by
  have cast : 1000 * n.value =
      ((n.decimal.significand * 1000 : ℕ) : ℚ) / ((10 ^ n.fraction.length : ℕ) : ℚ) := by
    push_cast [value]
    ring
  rw [cast, Nat.floor_div_eq_div, thousandfold_eq_div h]

end Numeral

end SpeechMarkup
