import SpeechMarkup.Proofs.ShortestDecimal
import SpeechMarkup.Proofs.TextTree
import SpeechMarkup.Proofs.WrittenNumber

/-! The one text of a number in JSON, told without its printer. A whole number is written in digits, with no zero at the
front. A float is written as the shortest decimal that is rounded to it: with all its places from five behind the point
to sixteen before it, elsewhere with one digit before the point and a power of ten. What is printed is this text. -/

namespace SpeechMarkup

open Json (Digits)

namespace Decimal

/-- Digits that may stand before a point: a zero at their front stands alone. -/
structure IsWhole (ds : List Char) : Prop where
  digits : Digits ds
  zero : ds.head? = some '0' → ds = ['0']

theorem isWhole_of_cons {d : Char} {later : List Char} (digits : Digits (d :: later)) (other : d ≠ '0') :
    IsWhole (d :: later) :=
  ⟨digits, fun zero => absurd (Option.some.inj zero) other⟩

theorem digits_digits (n : Nat) : Digits (digits n) :=
  ⟨Nat.toDigits_ne_nil, fun _ mem => isDigit_of_mem_digits mem⟩

theorem exists_digits_cons {n : Nat} (positive : n ≠ 0) : ∃ d later, digits n = d :: later ∧ d ≠ '0' := by
  induction n using Nat.strongRecOn with
  | _ n ih =>
    unfold digits at ih ⊢
    by_cases short : n < 10
    · rw [Nat.toDigits_of_lt_base short]
      exact ⟨_, [], rfl, (by decide : ∀ n < 10, n ≠ 0 → n.digitChar ≠ '0') n short positive⟩
    · obtain ⟨d, later, same, other⟩ := ih (n / 10) (by omega) (by omega)
      rw [Nat.toDigits_of_base_le (by decide) (Nat.not_lt.1 short), same]
      exact ⟨d, _, rfl, other⟩

theorem isWhole_digits (n : Nat) : IsWhole (digits n) := by
  by_cases zero : n = 0
  · subst zero
    exact ⟨digits_digits 0, fun _ => rfl⟩
  · obtain ⟨d, later, same, other⟩ := exists_digits_cons zero
    exact same ▸ isWhole_of_cons (same ▸ digits_digits n) other

theorem exists_digitChar {c : Char} (digit : c.isDigit = true) : ∃ d < 10, c = Nat.digitChar d := by
  have bounds : 48 ≤ c.toNat ∧ c.toNat ≤ 57 := by
    simpa [Char.isDigit, UInt32.le_iff_toNat_le] using digit
  obtain ⟨d, few, value⟩ : ∃ d < 10, c.toNat = 48 + d := ⟨c.toNat - 48, by omega, by omega⟩
  refine ⟨d, few, Char.toNat_inj.1 ?_⟩
  rw [value]
  exact (by decide : ∀ d < 10, 48 + d = (Nat.digitChar d).toNat) d few

theorem ofDigits_concat_digitChar (ds : List Char) {d : Nat} (few : d < 10) :
    ofDigits (ds ++ [Nat.digitChar d]) = 10 * ofDigits ds + d := by
  have digit : ofDigits [Nat.digitChar d] = d := (by decide : ∀ d < 10, ofDigits [Nat.digitChar d] = d) d few
  rw [ofDigits_append, digit, List.length_singleton, pow_one, Nat.mul_comm]

theorem ofDigits_pos {ds : List Char} (whole : IsWhole ds) (other : ds ≠ ['0']) : 0 < ofDigits ds := by
  obtain ⟨⟨nonempty, digits⟩, zero⟩ := whole
  obtain ⟨c, later, rfl⟩ := List.exists_cons_of_ne_nil nonempty
  obtain ⟨d, few, rfl⟩ := exists_digitChar (digits c List.mem_cons_self)
  rw [ofDigits_cons]
  have front : d ≠ 0 := by
    rintro rfl
    exact other (zero rfl)
  have value : (Nat.digitChar d).toNat - '0'.toNat = d :=
    (by decide : ∀ d < 10, (Nat.digitChar d).toNat - '0'.toNat = d) d few
  rw [value]
  exact Nat.add_pos_left (Nat.mul_pos (Nat.pos_of_ne_zero front) (by positivity)) _

theorem digits_ofDigits {ds : List Char} (whole : IsWhole ds) : digits (ofDigits ds) = ds := by
  induction ds using List.reverseRecOn with
  | nil => exact absurd rfl whole.digits.1
  | append_singleton front c ih =>
    obtain ⟨d, few, rfl⟩ := exists_digitChar (whole.digits.2 c (by simp))
    rw [ofDigits_concat_digitChar _ few]
    cases front with
    | nil => rw [ofDigits_nil, Nat.mul_zero, Nat.zero_add, digits, Nat.toDigits_of_lt_base few, List.nil_append]
    | cons f front =>
      have shorter : IsWhole (f :: front) := by
        refine isWhole_of_cons ⟨List.cons_ne_nil _ _, fun c mem => whole.digits.2 c (List.mem_append_left _ mem)⟩ ?_
        rintro rfl
        simpa using whole.zero rfl
      have some : 0 < ofDigits (f :: front) := ofDigits_pos shorter fun zero => by
        obtain ⟨rfl, rfl⟩ := List.cons.inj zero
        simpa using whole.zero rfl
      rw [digits, ← Nat.toDigits_append_toDigits (by decide) some few, Nat.toDigits_of_lt_base few]
      exact congrArg (· ++ _) (ih shorter)

/-- Digits of the same length and value are the same: a one before them keeps their zeros. -/
theorem ext_ofDigits {ds es : List Char} (digits : ∀ c ∈ ds, c.isDigit = true) (digits' : ∀ c ∈ es, c.isDigit = true)
    (length : ds.length = es.length) (same : ofDigits ds = ofDigits es) : ds = es := by
  have one {ds : List Char} (digits : ∀ c ∈ ds, c.isDigit = true) : IsWhole ('1' :: ds) :=
    isWhole_of_cons ⟨List.cons_ne_nil _ _, List.forall_mem_cons.2 ⟨rfl, digits⟩⟩ (by decide)
  have fronted : ofDigits ('1' :: ds) = ofDigits ('1' :: es) := by
    rw [ofDigits_cons, ofDigits_cons, length, same]
  have texts := congrArg Decimal.digits fronted
  rw [digits_ofDigits (one digits), digits_ofDigits (one digits')] at texts
  exact (List.cons.inj texts).2

theorem ofDigits_mod_eq_zero_iff {ds : List Char} (digits : Digits ds) :
    ofDigits ds % 10 = 0 ↔ ds.getLast? = some '0' := by
  obtain ⟨front, c, rfl⟩ := (List.eq_nil_or_concat' ds).resolve_left digits.1
  obtain ⟨d, few, rfl⟩ := exists_digitChar (digits.2 c (by simp))
  rw [ofDigits_concat_digitChar _ few, List.getLast?_concat, Nat.mul_add_mod, Nat.mod_eq_of_lt few, Option.some_inj]
  exact (by decide : ∀ d < 10, d = 0 ↔ Nat.digitChar d = '0') d few

end Decimal

namespace Numeral

variable {a b : Numeral}

theorem significand_decimal (n : Numeral) :
    n.decimal.significand = Decimal.ofDigits n.fraction + 10 ^ n.fraction.length * Decimal.ofDigits n.whole := by
  rw [decimal, Decimal.ofPlaces, Decimal.ofDigits_append, Nat.add_comm, Nat.mul_comm]

/-- Of two numerals for the same number one has more places only where it ends in a zero. -/
theorem length_fraction_le (same : a.value = b.value) (digits : ∀ c ∈ b.fraction, c.isDigit = true)
    (last : b.fraction.getLast? = some '0' → b.fraction.length ≤ a.fraction.length) :
    b.fraction.length ≤ a.fraction.length := by
  by_contra longer
  obtain ⟨more, length⟩ : ∃ more, b.fraction.length = a.fraction.length + (more + 1) :=
    ⟨b.fraction.length - a.fraction.length - 1, by omega⟩
  have exact : b.decimal.significand = a.decimal.significand * 10 ^ (more + 1) := by
    have tens : (10 : ℚ) ^ a.fraction.length ≠ 0 := by positivity
    rw [value, value, length, pow_add, div_eq_div_iff tens (by positivity)] at same
    have product : (a.decimal.significand : ℚ) * 10 ^ (more + 1) = b.decimal.significand := by
      refine mul_right_cancel₀ tens ?_
      linarith
    exact_mod_cast product.symm
  have nonempty : b.fraction ≠ [] := List.ne_nil_of_length_pos (by omega)
  have ends : Decimal.ofDigits b.fraction % 10 = 0 := by
    rw [significand_decimal, length, ← Nat.add_assoc, pow_succ, pow_succ, Nat.mul_right_comm, ← Nat.mul_assoc] at exact
    omega
  exact longer (last ((Decimal.ofDigits_mod_eq_zero_iff ⟨nonempty, digits⟩).1 ends))

theorem ext_value (whole : Decimal.IsWhole a.whole) (whole' : Decimal.IsWhole b.whole)
    (digits : ∀ c ∈ a.fraction, c.isDigit = true) (digits' : ∀ c ∈ b.fraction, c.isDigit = true)
    (length : a.fraction.length = b.fraction.length) (same : a.value = b.value) : a = b := by
  have few := Decimal.ofDigits_lt digits
  have few' := Decimal.ofDigits_lt digits'
  rw [value, value, length, div_left_inj' (by positivity), Nat.cast_inj, significand_decimal, length] at same
  rw [length] at few
  have splitA := (Nat.div_mod_unique (by positivity)).2 ⟨same, few⟩
  have splitB := (Nat.div_mod_unique (by positivity)).2 ⟨b.significand_decimal.symm, few'⟩
  have wholes : Decimal.ofDigits a.whole = Decimal.ofDigits b.whole := splitA.1.symm.trans splitB.1
  have fractions : Decimal.ofDigits a.fraction = Decimal.ofDigits b.fraction := splitA.2.symm.trans splitB.2
  have front : a.whole = b.whole := by
    have texts := congrArg Decimal.digits wholes
    rwa [Decimal.digits_ofDigits whole, Decimal.digits_ofDigits whole'] at texts
  have behind : a.fraction = b.fraction := Decimal.ext_ofDigits digits digits' length fractions
  cases a
  cases b
  exact congrArg₂ _ front behind

end Numeral

namespace Json

open Decimal (IsWhole)

structure WholeText (n : Nat) (ds : List Char) : Prop where
  whole : IsWhole ds
  value : Decimal.ofDigits ds = n

theorem wholeText_iff {n : Nat} {ds : List Char} : WholeText n ds ↔ ds = Decimal.digits n := by
  constructor
  · rintro ⟨whole, rfl⟩
    exact (Decimal.digits_ofDigits whole).symm
  · rintro rfl
    exact ⟨Decimal.isWhole_digits n, Decimal.ofDigits_digits n⟩

/-- Floats of this size are written without a power of ten. -/
def Usual (q : ℚ) : Prop :=
  10 ^ (-5 : Int) ≤ q ∧ q < 10 ^ (16 : Int)

/-- The text of a positive float: all its places, at least one of them behind the point, or a numeral with one digit
before the point and a power of ten. -/
inductive FloatText (q : ℚ) : List Char → Prop where
  | places {n : Numeral} (usual : Usual q) (whole : IsWhole n.whole) (fraction : Digits n.fraction)
      (last : n.fraction.getLast? = some '0' → n.fraction = ['0']) (value : n.value = q) : FloatText q n.text
  | power {n : Numeral} {d : Char} {e : Int} {ds : List Char} (unusual : ¬Usual q) (leading : n.whole = [d])
      (whole : IsWhole n.whole) (other : d ≠ '0') (fraction : ∀ c ∈ n.fraction, c.isDigit = true)
      (last : n.fraction.getLast? ≠ some '0') (value : n.value * 10 ^ e = q) (exponent : WholeText e.natAbs ds) :
      FloatText q (n.text ++ 'e' :: (if e < 0 then '-' else '+') :: ds)

section Unique

variable {q : ℚ} {text text' : List Char} {a b : Numeral}

theorem value_of_leading {d : Char} (leading : a.whole = [d]) (whole : IsWhole a.whole) (other : d ≠ '0')
    (fraction : ∀ c ∈ a.fraction, c.isDigit = true) : 1 ≤ a.value ∧ a.value < 10 := by
  have some : 0 < Decimal.ofDigits a.whole := Decimal.ofDigits_pos whole (by simpa [leading] using other)
  have one : Decimal.ofDigits a.whole < 10 ^ 1 := by simpa [leading] using Decimal.ofDigits_lt whole.digits.2
  have few := Decimal.ofDigits_lt fraction
  have tens : (0 : ℚ) < 10 ^ a.fraction.length := by positivity
  rw [Numeral.value, le_div_iff₀ tens, div_lt_iff₀ tens, a.significand_decimal]
  constructor
  · have least : 1 * 10 ^ a.fraction.length ≤
        Decimal.ofDigits a.fraction + 10 ^ a.fraction.length * Decimal.ofDigits a.whole := by nlinarith
    exact_mod_cast least
  · have most : Decimal.ofDigits a.fraction + 10 ^ a.fraction.length * Decimal.ofDigits a.whole <
        10 * 10 ^ a.fraction.length := by nlinarith
    exact_mod_cast most

theorem exponent_le {p r : ℚ} {e f : Int} (one : 1 ≤ p) (ten : r < 10) (same : p * 10 ^ e = r * 10 ^ f) : e ≤ f := by
  have low : (10 : ℚ) ^ e ≤ p * 10 ^ e := le_mul_of_one_le_left (zpow_pos (by norm_num) _).le one
  have high : r * 10 ^ f < (10 : ℚ) ^ (f + 1) := by
    rw [zpow_add_one₀ (by norm_num), mul_comm]
    exact mul_lt_mul_of_pos_left ten (zpow_pos (by norm_num) _)
  have order : (10 : ℚ) ^ e < 10 ^ (f + 1) := low.trans_lt (same ▸ high)
  rw [zpow_lt_zpow_iff_right₀ (by norm_num)] at order
  omega

theorem FloatText.unique (h : FloatText q text) (h' : FloatText q text') : text = text' := by
  cases h with
  | @places a usual whole fraction last value =>
    cases h' with
    | @places b _ whole' fraction' last' value' =>
      have same : a.value = b.value := value.trans value'.symm
      have one {ds : List Char} (digits : Digits ds) : ['0'].length ≤ ds.length := List.length_pos_of_ne_nil digits.1
      have length := le_antisymm
        (Numeral.length_fraction_le same.symm fraction.2 fun zero => (last zero).symm ▸ one fraction')
        (Numeral.length_fraction_le same fraction'.2 fun zero => (last' zero).symm ▸ one fraction)
      rw [Numeral.ext_value whole whole' fraction.2 fraction'.2 length same]
    | power unusual => exact absurd usual unusual
  | @power a d e ds unusual leading whole other fraction last value exponent =>
    cases h' with
    | places usual => exact absurd usual unusual
    | @power b d' e' ds' _ leading' whole' other' fraction' last' value' exponent' =>
      have size := value_of_leading leading whole other fraction
      have size' := value_of_leading leading' whole' other' fraction'
      have product := value.trans value'.symm
      obtain rfl : e = e' := le_antisymm (exponent_le size.1 size'.2 product) (exponent_le size'.1 size.2 product.symm)
      have same : a.value = b.value := mul_right_cancel₀ (zpow_ne_zero _ (by norm_num)) product
      have length := le_antisymm
        (Numeral.length_fraction_le same.symm fraction fun zero => absurd zero last)
        (Numeral.length_fraction_le same fraction' fun zero => absurd zero last')
      rw [Numeral.ext_value whole whole' fraction fraction' length same, wholeText_iff.1 exponent,
        wholeText_iff.1 exponent']

end Unique

section Printed

variable {x : Decimal}

theorem usual_iff (positive : x.significand ≠ 0) : Usual x.value ↔
    -5 ≤ ((Decimal.digits x.significand).length - 1 + x.exponent : Int) ∧
      ((Decimal.digits x.significand).length - 1 + x.exponent : Int) < 16 := by
  obtain ⟨least, most⟩ := Decimal.length_digits positive
  obtain ⟨more, length⟩ : ∃ more, (Decimal.digits x.significand).length = more + 1 :=
    Nat.exists_eq_add_one.2 Nat.length_toDigits_pos
  have step : (0 : ℚ) < 10 ^ x.exponent := zpow_pos (by norm_num) _
  rw [length] at least most ⊢
  have low : (10 : ℚ) ^ (more + x.exponent) ≤ x.value := by
    rw [zpow_add₀ (by norm_num), zpow_natCast]
    exact mul_le_mul_of_nonneg_right (by exact_mod_cast least) step.le
  have high : x.value < 10 ^ (more + x.exponent + 1) := by
    rw [add_right_comm, zpow_add₀ (by norm_num), ← Nat.cast_succ, zpow_natCast]
    exact mul_lt_mul_of_pos_right (by exact_mod_cast most) step
  have place : (((more + 1 : Nat) : Int) - 1 + x.exponent) = more + x.exponent := by omega
  rw [place, Usual]
  constructor
  · rintro ⟨above, below⟩
    have first := above.trans_lt high
    have second := low.trans_lt below
    rw [zpow_lt_zpow_iff_right₀ (by norm_num)] at first second
    omega
  · rintro ⟨above, below⟩
    constructor
    · exact (zpow_le_zpow_right₀ (by norm_num) above).trans low
    · exact high.trans_le (zpow_le_zpow_right₀ (by norm_num) (by omega))

theorem isWhole_splitDigits {n : Nat} (positive : n ≠ 0) (places : Nat) :
    IsWhole (Decimal.splitDigits (places + 1) (Decimal.digits n)).whole := by
  have wellFormed : (Decimal.splitDigits (places + 1) (Decimal.digits n)).WellFormed :=
    Decimal.wellFormed_splitDigits _ fun _ => Decimal.isDigit_of_mem_digits
  refine ⟨⟨wellFormed.whole_ne_nil, wellFormed.whole⟩, fun zero => ?_⟩
  obtain ⟨d, later, same, other⟩ := Decimal.exists_digits_cons positive
  simp only [Decimal.splitDigits, same, List.length_cons, List.length_append, List.length_replicate] at zero ⊢
  by_cases filled : later.length + 1 ≤ places + 1
  · obtain ⟨fill, enough⟩ : ∃ fill, places + 1 + 1 - (later.length + 1) = fill + 1 :=
      ⟨places - later.length, by omega⟩
    rw [enough, show fill + 1 + (later.length + 1) - (places + 1) = 1 by omega, List.replicate_succ]
    rfl
  · obtain ⟨shown, front⟩ : ∃ shown, later.length + 1 - (places + 1) = shown + 1 :=
      ⟨later.length - places - 1, by omega⟩
    rw [show places + 1 + 1 - (later.length + 1) = 0 by omega, Nat.zero_add, front] at zero
    exact absurd (Option.some.inj zero) other

theorem getLast?_splitDigits {digits : List Char} (places : Nat) (nonempty : digits ≠ []) :
    (Decimal.splitDigits (places + 1) digits).fraction.getLast? = digits.getLast? := by
  rw [Decimal.splitDigits]
  dsimp only
  rw [List.getLast?_drop, if_neg, List.getLast?_append_of_ne_nil _ nonempty]
  simp only [List.length_append, List.length_replicate]
  omega

theorem floatText_whole {significand zeros : Nat} (positive : significand ≠ 0)
    (usual : Usual (Decimal.value ⟨significand, .ofNat zeros⟩)) :
    FloatText (Decimal.value ⟨significand, .ofNat zeros⟩)
      (Decimal.digits significand ++ List.replicate zeros '0' ++ ['.', '0']) := by
  have value : (Numeral.mk (Decimal.digits significand ++ List.replicate zeros '0') ['0']).value =
      Decimal.value ⟨significand, .ofNat zeros⟩ := by
    have zero : Decimal.ofDigits ['0'] = 0 := rfl
    rw [Numeral.value, Numeral.significand_decimal, Decimal.ofDigits_shifted, Decimal.value_ofNat]
    simp only [zero, List.length_singleton]
    push_cast
    ring
  have whole : IsWhole (Decimal.digits significand ++ List.replicate zeros '0') := by
    obtain ⟨d, later, same, other⟩ := Decimal.exists_digits_cons positive
    have digits := (Decimal.digits_digits significand).2
    rw [same] at digits ⊢
    refine Decimal.isWhole_of_cons ⟨List.cons_ne_nil _ _, List.forall_mem_append.2 ⟨digits, fun c mem => ?_⟩⟩ other
    rw [List.eq_of_mem_replicate mem]
    rfl
  exact .places usual whole ⟨by simp, by simp⟩ (fun _ => rfl) value

theorem floatText_fraction {significand places : Nat} (last : significand % 10 ≠ 0)
    (usual : Usual (Decimal.value ⟨significand, .negSucc places⟩)) :
    FloatText (Decimal.value ⟨significand, .negSucc places⟩) (Decimal.positional ⟨significand, .negSucc places⟩) := by
  have positive : significand ≠ 0 := fun zero => last (by rw [zero])
  have fraction : Digits (Decimal.splitDigits (places + 1) (Decimal.digits significand)).fraction := by
    have wellFormed := Decimal.wellFormed_numeral ⟨significand, .negSucc places⟩
    refine ⟨List.ne_nil_of_length_pos ?_, wellFormed.fraction⟩
    rw [Decimal.length_fraction_splitDigits]
    exact Nat.succ_pos _
  have ends : (Decimal.splitDigits (places + 1) (Decimal.digits significand)).fraction.getLast? ≠ some '0' := by
    rwa [getLast?_splitDigits places (Decimal.digits_digits significand).1, Ne,
      ← Decimal.ofDigits_mod_eq_zero_iff (Decimal.digits_digits _), Decimal.ofDigits_digits]
  have value : (Decimal.splitDigits (places + 1) (Decimal.digits significand)).value =
      Decimal.value ⟨significand, .negSucc places⟩ := by
    rw [← Numeral.value_decimal, Decimal.decimal_splitDigits]
    rfl
  rw [← Decimal.text_numeral]
  exact .places usual (isWhole_splitDigits positive places) fraction (fun zero => absurd zero ends) value

theorem floatText_power {d : Char} {later : List Char} (written : Decimal.digits x.significand = d :: later)
    (other : d ≠ '0') (last : x.significand % 10 ≠ 0) (unusual : ¬Usual x.value) :
    FloatText x.value ((Numeral.mk [d] later).text ++ 'e' :: (if later.length + x.exponent < 0 then '-' else '+') ::
      Decimal.digits (later.length + x.exponent).natAbs) := by
  have digits := Decimal.digits_digits x.significand
  have ends : (Decimal.digits x.significand).getLast? ≠ some '0' := by
    rwa [Ne, ← Decimal.ofDigits_mod_eq_zero_iff digits, Decimal.ofDigits_digits]
  have value : (Numeral.mk [d] later).value * 10 ^ (later.length + x.exponent) = x.value := by
    have significand : (Numeral.mk [d] later).decimal.significand = x.significand := by
      rw [Numeral.decimal, Decimal.ofPlaces, List.singleton_append, ← written, Decimal.ofDigits_digits]
    have tens : (10 : ℚ) ^ later.length ≠ 0 := by positivity
    rw [Numeral.value, significand, zpow_add₀ (by norm_num), zpow_natCast, Decimal.value]
    field_simp
  rw [written] at digits ends
  obtain ⟨digit, fraction⟩ := List.forall_mem_cons.1 digits.2
  have whole : IsWhole [d] := Decimal.isWhole_of_cons ⟨by simp, by simpa using digit⟩ other
  have behind : later.getLast? ≠ some '0' := fun zero => ends (by rw [List.getLast?_cons, zero]; rfl)
  exact .power unusual rfl whole other fraction behind value (wholeText_iff.2 rfl)

theorem floatText_floatDigits (last : x.significand % 10 ≠ 0) : FloatText x.value (Number.floatDigits x) := by
  have positive : x.significand ≠ 0 := fun zero => last (by rw [zero])
  have usual := usual_iff positive
  unfold Number.floatDigits
  extract_lets written leading mantissa sign
  split
  next here =>
    rw [Bool.and_eq_true, decide_eq_true_eq, decide_eq_true_eq] at here
    have size := usual.2 here
    obtain ⟨significand, zeros | places⟩ := x
    · exact floatText_whole positive size
    · rw [if_pos (Int.negSucc_lt_zero places)]
      exact floatText_fraction last size
  next elsewhere =>
    rw [Bool.and_eq_true, decide_eq_true_eq, decide_eq_true_eq] at elsewhere
    obtain ⟨d, later, same, other⟩ := Decimal.exists_digits_cons positive
    have text : mantissa = (Numeral.mk [d] later).text := by
      simp only [mantissa, written, same]
      cases later <;> rfl
    have place : leading = later.length + x.exponent := by
      simp only [leading, written, same, List.length_cons]
      omega
    simp only [sign]
    rw [text, place]
    exact floatText_power same other last (usual.not.2 elsewhere)

end Printed

section Numbers

def minus (negative : Bool) : List Char :=
  if negative then ['-'] else []

/-- The text of a number in JSON. A whole number has its digits, a float those of the shortest decimal that is rounded
to it. What is no finite number is written as null. -/
inductive Number.Canonical : Number → List Char → Prop where
  | integer {i : Int} {ds : List Char} (whole : WholeText i.natAbs ds) : Canonical (.integer i) (minus (i < 0) ++ ds)
  | zero (negative : Bool) : Canonical (.float (.signed negative .zero)) (minus negative ++ ['0', '.', '0'])
  | float {m : Magnitude} {x : Decimal} {ds : List Char} (negative : Bool) (positive : m ≠ .zero)
      (finite : m ≠ .infinity) (shortest : m.Shortest x) (text : FloatText x.value ds) :
      Canonical (.float (.signed negative m)) (minus negative ++ ds)
  | infinity (negative : Bool) : Canonical (.float (.signed negative .infinity)) ['n', 'u', 'l', 'l']
  | nan : Canonical (.float .nan) ['n', 'u', 'l', 'l']

theorem floatText_magnitudeText {m : Magnitude} (positive : m ≠ .zero) (finite : m ≠ .infinity) :
    ∃ x, m.Shortest x ∧ FloatText x.value (Number.magnitudeText m) := by
  have shortest := Magnitude.shortest_toEven positive finite
  refine ⟨_, shortest, ?_⟩
  rw [Number.magnitudeText, if_neg positive]
  exact floatText_floatDigits shortest.significand_mod

/-- What is printed for a number is its text. -/
theorem Number.canonical_text (n : Number) : n.Canonical n.text := by
  cases n with
  | integer i =>
    cases i with
    | ofNat n => exact .integer (i := .ofNat n) (wholeText_iff.2 rfl)
    | negSucc n =>
      have digits : Canonical _ (minus _ ++ Decimal.digits (n + 1)) := .integer (i := .negSucc n) (wholeText_iff.2 rfl)
      rwa [decide_eq_true (Int.negSucc_lt_zero n)] at digits
  | float x =>
    obtain _ | ⟨negative, m⟩ := x
    · exact .nan
    have signed : (if negative then '-' :: magnitudeText m else magnitudeText m) =
        minus negative ++ magnitudeText m := by
      cases negative <;> rfl
    rw [text]
    split
    next infinite =>
      subst infinite
      exact .infinity negative
    next finite =>
      rw [signed]
      by_cases zero : m = .zero
      · subst zero
        exact .zero negative
      · obtain ⟨x, shortest, text⟩ := floatText_magnitudeText zero finite
        exact .float negative zero finite shortest text

theorem Number.Canonical.unique {n : Number} {text text' : List Char} (h : n.Canonical text) (h' : n.Canonical text') :
    text = text' := by
  cases h with
  | integer whole =>
    cases h' with
    | integer whole' => rw [wholeText_iff.1 whole, wholeText_iff.1 whole']
  | zero =>
    cases h' with
    | zero => rfl
    | float _ positive => exact absurd rfl positive
  | float _ positive finite shortest text =>
    cases h' with
    | zero => exact absurd rfl positive
    | float _ _ _ shortest' text' =>
      obtain rfl := shortest.unique shortest'
      rw [text.unique text']
    | infinity => exact absurd rfl finite
  | infinity =>
    cases h' with
    | float _ _ finite => exact absurd rfl finite
    | infinity => rfl
  | nan => cases h'; rfl

end Numbers

end Json

end SpeechMarkup
