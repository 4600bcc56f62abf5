import Mathlib.Data.Set.Lattice
import Mathlib.Order.CompletePartialOrder
import SpeechMarkup.Proofs.Domain
import SpeechMarkup.Proofs.Rounding

/-! Quantities under the four sign rules. A text is read exactly where it is a sign that the rule lets stand, a numeral
and the unit, whatever the unit looks like: with the unit taken off, the sign and the numeral are given by what is left.
So the rules differ only in the texts that they let pass and never in the number. What is written for a finite number,
with or without an explicit sign, is read back as that number. -/

namespace SpeechMarkup

namespace Signed

/-- The text spells this number: behind a sign that the rule lets stand come a numeral and the unit, and the number is
the double nearest to the numeral, below zero for a minus. -/
inductive Spells (rule : SignRule) (unit text : String) (x : Binary64) : Prop
  | quantity (sign : Option Sign) (n : Numeral) : sign ∈ rule.signs → n.WellFormed →
    text.toList = Signed.text sign n unit.toList → x.NearestTo sign n.value → Spells rule unit text x

def language (unit : String) (rule : SignRule) : Set String :=
  {text | ∃ x, parse text unit rule = .ok x}

variable {rule : SignRule} {unit text : String} {x : Binary64}

theorem parse_eq_ok_iff_read : parse text unit rule = .ok x ↔ read? rule unit.toList text.toList = some x := by
  unfold parse
  cases read? rule unit.toList text.toList <;> simp

theorem spells_iff_read : Spells rule unit text x ↔ read? rule unit.toList text.toList = some x := by
  rw [read?_eq_some_iff]
  constructor
  · rintro ⟨sign, n, allowed, wellFormed, same, nearest⟩
    exact ⟨sign, n, SignRule.allows_iff.2 allowed, wellFormed, same, nearest.unique (nearestTo_number sign n)⟩
  · rintro ⟨sign, n, allowed, wellFormed, same, rfl⟩
    exact ⟨sign, n, SignRule.allows_iff.1 allowed, wellFormed, same, nearestTo_number sign n⟩

theorem parse_eq_error_iff_read {error : QuantityError} :
    parse text unit rule = .error error ↔ error = .malformed text ∧ read? rule unit.toList text.toList = none := by
  unfold parse
  cases read? rule unit.toList text.toList <;> simp [eq_comm]

theorem parse_of_toList_eq {sign : Option Sign} {n : Numeral} (allowed : sign ∈ rule.signs) (wellFormed : n.WellFormed)
    (same : text.toList = Signed.text sign n unit.toList) : parse text unit rule = .ok (number sign n) := by
  rw [parse_eq_ok_iff_read, same]
  exact read?_text (SignRule.allows_iff.2 allowed) wellFormed _

theorem mem_language_iff : text ∈ language unit rule ↔ IsQuantity rule.signs unit text := by
  simp only [language, Set.mem_ofPred_eq, parse_eq_ok_iff_read, ← spells_iff_read]
  constructor
  · rintro ⟨_, sign, n, allowed, wellFormed, same, -⟩
    exact ⟨sign, allowed, n, wellFormed, same⟩
  · rintro ⟨sign, allowed, n, wellFormed, same⟩
    exact ⟨_, sign, n, allowed, wellFormed, same, nearestTo_number sign n⟩

/-- A unit is taken off as it is, so it may even look like a part of the numeral. -/
theorem text_inj_of_unit {sign sign' : Option Sign} {n n' : Numeral} {unit : List Char} (h : n.WellFormed)
    (h' : n'.WellFormed) (same : Signed.text sign n unit = Signed.text sign' n' unit) : sign = sign' ∧ n = n' := by
  have apart (sign : Option Sign) (n : Numeral) : Signed.text sign n unit = Signed.text sign n [] ++ unit := by
    simp [Signed.text]
  rw [apart, apart] at same
  have nothing : Leading.Ends [] := by simp [Leading.Ends]
  obtain ⟨signs, numerals, -⟩ := text_inj h h' nothing nothing (List.append_cancel_right same)
  exact ⟨signs, numerals⟩

theorem mem_signs_of_mem_language {sign : Option Sign} {n : Numeral} (h : n.WellFormed)
    (same : text.toList = Signed.text sign n unit.toList) (mem : text ∈ language unit rule) : sign ∈ rule.signs := by
  obtain ⟨sign', allowed, n', wellFormed, same'⟩ := mem_language_iff.1 mem
  obtain ⟨rfl, -⟩ := text_inj_of_unit h wellFormed (same.symm.trans same')
  exact allowed

theorem language_mono {rule rule' : SignRule} (more : rule.signs ⊆ rule'.signs) :
    language unit rule ⊆ language unit rule' := by
  intro text mem
  obtain ⟨sign, allowed, n, wellFormed, same⟩ := mem_language_iff.1 mem
  exact mem_language_iff.2 ⟨sign, more allowed, n, wellFormed, same⟩

theorem language_optional : language unit .optional = language unit .forbidden ∪ language unit .required := by
  refine Set.Subset.antisymm ?_ (Set.union_subset (language_mono (by decide)) (language_mono (by decide)))
  intro text mem
  obtain ⟨sign, -, n, wellFormed, same⟩ := mem_language_iff.1 mem
  cases sign with
  | none => exact .inl (mem_language_iff.2 ⟨none, by decide, n, wellFormed, same⟩)
  | some sign => exact .inr (mem_language_iff.2 ⟨some sign, by cases sign <;> decide, n, wellFormed, same⟩)

theorem disjoint_language : Disjoint (language unit .forbidden) (language unit .required) := by
  rw [Set.disjoint_left]
  intro text unsigned signed
  obtain ⟨sign, allowed, n, wellFormed, same⟩ := mem_language_iff.1 unsigned
  have shown := mem_signs_of_mem_language wellFormed same signed
  revert allowed shown
  rcases sign with _ | _ | _ <;> decide

theorem parse_congr {rule rule' : SignRule} (mem : text ∈ language unit rule) (mem' : text ∈ language unit rule') :
    parse text unit rule = parse text unit rule' := by
  obtain ⟨sign, allowed, n, wellFormed, same⟩ := mem_language_iff.1 mem
  have allowed' := mem_signs_of_mem_language wellFormed same mem'
  rw [parse_of_toList_eq allowed wellFormed same, parse_of_toList_eq allowed' wellFormed same]

/-- A quantity is read as what it spells, and every other text is malformed. Optional signs are those of texts without
one and of texts with one, which are different texts; allowing just a plus lies between; and no two rules read
different numbers. -/
theorem parse_iff_spells (unit : String) :
    (∀ text rule x, parse text unit rule = .ok x ↔ Spells rule unit text x) ∧
    (∀ text rule error, parse text unit rule = .error error ↔
      error = .malformed text ∧ ∀ x, ¬ Spells rule unit text x) ∧
    (language unit .optional = language unit .forbidden ∪ language unit .required ∧
      Disjoint (language unit .forbidden) (language unit .required)) ∧
    (language unit .forbidden ⊆ language unit .plusOnly ∧ language unit .plusOnly ⊆ language unit .optional) ∧
    ∀ rule rule', ∀ text ∈ language unit rule ∩ language unit rule', parse text unit rule = parse text unit rule' := by
  refine ⟨fun text rule x => ?_, fun text rule error => ?_, ⟨language_optional, disjoint_language⟩,
    ⟨language_mono (by decide), language_mono (by decide)⟩, fun rule rule' text mem => parse_congr mem.1 mem.2⟩
  · rw [spells_iff_read, parse_eq_ok_iff_read]
  · simp only [spells_iff_read, parse_eq_error_iff_read, Option.eq_none_iff_forall_ne_some, ne_eq]

/-- The unit takes a digit away from the end of the text. -/
theorem parse_iff_spells_digit :
    "-1.50" ∈ language "0" .required ∩ language "0" .optional ∧
      parse "-1.50" "0" .required = parse "-1.50" "0" .optional ∧
      Spells .optional "0" "-1.50" ((Decimal.mk 15 (-1)).toBinary64 true) := by
  have signed : parse "-1.50" "0" .required = .ok ((Decimal.mk 15 (-1)).toBinary64 true) := by decide +kernel
  have either : parse "-1.50" "0" .optional = .ok ((Decimal.mk 15 (-1)).toBinary64 true) := by decide +kernel
  obtain ⟨spelled, -, -, -, same⟩ := parse_iff_spells "0"
  have both : "-1.50" ∈ language "0" .required ∩ language "0" .optional := ⟨⟨_, signed⟩, ⟨_, either⟩⟩
  exact ⟨both, same _ _ _ both, (spelled _ _ _).1 either⟩

/-- What is written for a number is read back from in front of the unit. A negative zero is written as zero. -/
structure ReadsBack (x : Binary64) (unit : String) : Prop where
  signed : parse (x.signedText unit) unit .required = .ok x.plainZero
  optional : parse (x.text ++ unit) unit .optional = .ok x.plainZero
  unsigned : x.lt .zero = false → parse (x.text ++ unit) unit .forbidden = .ok x.plainZero ∧
    parse (x.text ++ unit) unit .plusOnly = .ok x.plainZero
  numeral : ∃ n : Numeral, n.WellFormed ∧ x.text.toList = Sign.text x.sign ++ n.text
  signedNumeral : ∃ n : Numeral, n.WellFormed ∧
    (x.signedText unit).toList = Sign.text (some x.shownSign) ++ n.text ++ unit.toList
  noExponent : 'e' ∉ x.text.toList ∧ 'E' ∉ x.text.toList
  zero : x.isZero = true → ¬ ['-', '0'] <+: x.text.toList ∧ ¬ ['-', '0'] <+: (x.signedText unit).toList

theorem not_minus_zero (negative : Bool) (m : Magnitude) (unit : String)
    (isZero : (Binary64.signed negative m).isZero = true) :
    ¬ ['-', '0'] <+: (Binary64.signed negative m).text.toList ∧
      ¬ ['-', '0'] <+: ((Binary64.signed negative m).signedText unit).toList := by
  rw [Binary64.isZero_signed, decide_eq_true_eq] at isZero
  subst isZero
  have plain : (Binary64.signed negative .zero).text = "0" := by cases negative <;> rfl
  have shown : ((Binary64.signed negative .zero).signedText unit).toList = '+' :: '0' :: unit.toList := by
    rw [Binary64.signedText, Binary64.lt_zero_signed, plain]
    simp
  rw [plain, shown]
  constructor <;> simp

theorem not_mem_of_numeral {sign : Option Sign} {n : Numeral} (wellFormed : n.WellFormed) :
    'e' ∉ Sign.text sign ++ n.text ∧ 'E' ∉ Sign.text sign ++ n.text := by
  have small : 'e' ∉ n.text := not_mem_text_of_letter wellFormed rfl (by decide)
  have large : 'E' ∉ n.text := not_mem_text_of_letter wellFormed rfl (by decide)
  rcases sign with _ | _ | _ <;> simp [Sign.text, small, large]

/-- Every finite number is read back, in front of whatever unit. -/
theorem readsBack_of_finite (negative : Bool) {m : Magnitude} (finite : m.isFinite = true) (unit : String) :
    ReadsBack (.signed negative m) unit := by
  have notInfinity : m ≠ .infinity := by
    rintro rfl
    cases finite
  have zero := not_minus_zero negative m unit
  obtain ⟨n, wellFormed, written, number⟩ := Binary64.exists_text negative notInfinity unit
  obtain ⟨n', wellFormed', written', number'⟩ := Binary64.exists_signedText negative notInfinity unit
  generalize Binary64.signed negative m = x at zero written number written' number' ⊢
  have read {rule : SignRule} (allowed : x.sign ∈ rule.signs) : parse (x.text ++ unit) unit rule = .ok x.plainZero := by
    rw [← number]
    exact parse_of_toList_eq allowed wellFormed written
  have text_eq : x.text.toList = Sign.text x.sign ++ n.text := by
    rw [String.toList_append, Signed.text, ← List.append_assoc] at written
    exact List.append_cancel_right written
  constructor
  case signed =>
    have allowed : some x.shownSign ∈ SignRule.required.signs := by cases x.shownSign <;> decide
    rw [← number']
    exact parse_of_toList_eq allowed wellFormed' written'
  case optional =>
    refine read ?_
    rw [Binary64.sign]
    split <;> decide
  case unsigned =>
    intro nonneg
    have unsigned : x.sign = none := by rw [Binary64.sign, nonneg]; rfl
    exact ⟨read (by rw [unsigned]; decide), read (by rw [unsigned]; decide)⟩
  case numeral => exact ⟨n, wellFormed, text_eq⟩
  case signedNumeral => exact ⟨n', wellFormed', by rw [written', Signed.text, List.append_assoc]⟩
  case noExponent =>
    rw [text_eq]
    exact not_mem_of_numeral wellFormed
  case zero => exact zero

/-- The unit goes on as the number could: it looks like more places and an exponent. -/
theorem readsBack_of_finite_places :
    let m := (Decimal.mk 125 (-1)).toMagnitude
    let x := Binary64.signed true m
    m.isFinite = true ∧ x.signedText "5e1" = "-12.55e1" ∧ parse "-12.55e1" "5e1" .required = .ok x ∧
      ReadsBack x "5e1" := by
  have finite : (Decimal.mk 125 (-1)).toMagnitude.isFinite = true := by decide +kernel
  exact ⟨finite, by decide +kernel, by decide +kernel, readsBack_of_finite true finite "5e1"⟩

end Signed

end SpeechMarkup
