import SpeechMarkup.Proofs.Numeral
import SpeechMarkup.Quantity.Leading

/-! Signed quantities and the number at the front of a text. Reading a quantity accepts exactly the texts
`[sign]<numeral><unit>` that the sign rule allows. The number at the front of such a text is the number that is read
from it, unless the unit looks like a continuation of the numeral: the two readers see the same number. -/

namespace SpeechMarkup

namespace Sign

def text : Option Sign → List Char
  | none => []
  | some plus => ['+']
  | some minus => ['-']

theorem text_read (cs : List Char) : text (read cs).1 ++ (read cs).2 = cs := by
  unfold read
  split <;> rfl

theorem read_of_isDigit {c : Char} (h : c.isDigit = true) (cs : List Char) : read (c :: cs) = (none, c :: cs) := by
  unfold read
  split
  · next plus => cases plus; simp [Char.isDigit] at h
  · next minus => cases minus; simp [Char.isDigit] at h
  · rfl

theorem read_text (sign : Option Sign) {c : Char} (h : c.isDigit = true) (cs : List Char) :
    read (text sign ++ c :: cs) = (sign, c :: cs) := by
  match sign with
  | none => exact read_of_isDigit h cs
  | some plus => rfl
  | some minus => rfl

end Sign

theorem Numeral.exists_text_cons {n : Numeral} (h : n.WellFormed) :
    ∃ c cs, n.text = c :: cs ∧ c.isDigit = true := by
  obtain ⟨whole, fraction⟩ := n
  obtain ⟨c, rest, rfl⟩ := List.exists_cons_of_ne_nil h.whole_ne_nil
  cases fraction with
  | nil => exact ⟨c, rest, rfl, h.whole c List.mem_cons_self⟩
  | cons d fraction => exact ⟨c, rest ++ '.' :: d :: fraction, rfl, h.whole c List.mem_cons_self⟩

theorem Sign.read_numeral (sign : Option Sign) {n : Numeral} (h : n.WellFormed) (cs : List Char) :
    read (text sign ++ (n.text ++ cs)) = (sign, n.text ++ cs) := by
  obtain ⟨c, rest, same, digit⟩ := n.exists_text_cons h
  rw [same]
  exact read_text sign digit (rest ++ cs)

namespace Signed

def text (sign : Option Sign) (n : Numeral) (unit : List Char) : List Char :=
  Sign.text sign ++ (n.text ++ unit)

def number (sign : Option Sign) (n : Numeral) : Binary64 :=
  n.decimal.toBinary64 (sign = some .minus)

theorem read?_text {rule : SignRule} {sign : Option Sign} {n : Numeral} (allowed : rule.allows sign = true)
    (h : n.WellFormed) (unit : List Char) : read? rule unit (text sign n unit) = some (number sign n) := by
  have suffix : unit.isSuffixOf? (text sign n unit) = some (Sign.text sign ++ n.text) := by
    rw [List.isSuffixOf?_eq_some_iff_append_eq]
    simp [text]
  have split : Sign.read (Sign.text sign ++ n.text) = (sign, n.text) := by
    simpa using Sign.read_numeral sign h []
  simp only [read?, suffix, split, allowed, guard, if_true, Option.pure_def, Option.bind_eq_bind, Option.bind_some,
    Numeral.read?_text h]
  rfl

theorem read?_eq_some_iff {rule : SignRule} {unit cs : List Char} {x : Binary64} :
    read? rule unit cs = some x ↔
      ∃ sign n, rule.allows sign = true ∧ n.WellFormed ∧ cs = text sign n unit ∧ x = number sign n := by
  constructor
  · intro h
    simp only [read?, Option.bind_eq_bind, Option.bind_eq_some_iff, Option.pure_def, Option.some.injEq] at h
    obtain ⟨body, suffix, _, allowed, n, numeral, rfl⟩ := h
    replace allowed := (Option.guard_eq_some' _).1 allowed
    rw [List.isSuffixOf?_eq_some_iff_append_eq] at suffix
    obtain ⟨wellFormed, same⟩ := Numeral.read?_eq_some_iff.1 numeral
    refine ⟨(Sign.read body).1, n, allowed, wellFormed, ?_, rfl⟩
    rw [text, same, ← List.append_assoc, Sign.text_read, suffix]
  · rintro ⟨sign, n, allowed, wellFormed, rfl, rfl⟩
    exact read?_text allowed wellFormed unit

theorem isOk_parse {text unit : String} {rule : SignRule} :
    (parse text unit rule).isOk = true ↔ ∃ x, read? rule unit.toList text.toList = some x := by
  unfold parse
  split
  · next x read => simp [read, Except.isOk, Except.toBool]
  · next none => simp [none, Except.isOk, Except.toBool]

end Signed

/-- What cannot continue a number that stands before it. -/
def Leading.Ends (cs : List Char) : Prop :=
  ∀ c ∈ cs.head?, c.isDigit = false ∧ c ≠ '.' ∧ c ≠ 'e' ∧ c ≠ 'E'

theorem Numeral.span_text {n : Numeral} (h : n.WellFormed) {unit : List Char} (ends : Leading.Ends unit) :
    (n.text ++ unit).takeWhile (fun c => c.isDigit || c = '.') = n.text := by
  have passes : ∀ c ∈ n.text, (c.isDigit || decide (c = '.')) = true := fun c hc => by
    simpa using n.mem_text h hc
  rw [List.takeWhile_append_of_pos passes]
  cases unit with
  | nil => simp
  | cons c unit => simp [(ends c rfl).1, (ends c rfl).2.1]

theorem Signed.text_inj {sign sign' : Option Sign} {n n' : Numeral} {unit unit' : List Char} (h : n.WellFormed)
    (h' : n'.WellFormed) (ends : Leading.Ends unit) (ends' : Leading.Ends unit')
    (same : text sign n unit = text sign' n' unit') : sign = sign' ∧ n = n' ∧ unit = unit' := by
  have read := congrArg Sign.read same
  rw [text, text, Sign.read_numeral sign h, Sign.read_numeral sign' h'] at read
  obtain ⟨sameSign, body⟩ := Prod.mk.inj read
  have numeral : n.text = n'.text := by
    rw [← Numeral.span_text h ends, body, Numeral.span_text h' ends']
  rw [numeral] at body
  have sameNumeral := congrArg Numeral.read? numeral
  rw [Numeral.read?_text h, Numeral.read?_text h'] at sameNumeral
  exact ⟨sameSign, Option.some.inj sameNumeral, List.append_cancel_left body⟩

namespace Leading

theorem Ends.takeWhile {cs : List Char} (h : Ends cs) : cs.takeWhile Char.isDigit = [] := by
  cases cs with
  | nil => rfl
  | cons c cs => simp [(h c rfl).1]

theorem Ends.dropWhile {cs : List Char} (h : Ends cs) : cs.dropWhile Char.isDigit = cs := by
  cases cs with
  | nil => rfl
  | cons c cs => simp [(h c rfl).1]

theorem Ends.fraction {cs : List Char} (h : Ends cs) : fraction cs = ([], cs) := by
  unfold Leading.fraction
  split
  · next rest => exact absurd rfl (h '.' rfl).2.1
  · rfl

theorem Ends.exponent {cs : List Char} (h : Ends cs) : exponent cs = 0 := by
  cases cs with
  | nil => rfl
  | cons c cs => simp [Leading.exponent, (h c rfl).2.2.1, (h c rfl).2.2.2]

theorem fraction_of_digits {digits : List Char} (nonempty : digits ≠ []) (h : ∀ c ∈ digits, c.isDigit = true)
    {rest : List Char} (ends : Ends rest) : fraction ('.' :: (digits ++ rest)) = (digits, rest) := by
  simp only [fraction, List.takeWhile_append_of_pos h, List.dropWhile_append_of_pos h, ends.takeWhile,
    ends.dropWhile, List.append_nil]
  rw [if_neg (by simpa using nonempty)]

theorem not_isBlank_of_isDigit {c : Char} (h : c.isDigit = true) : Text.isBlank c = false := by
  simp only [Char.isDigit, Bool.and_eq_true, decide_eq_true_eq, ge_iff_le, UInt32.le_iff_toNat_le] at h
  have least : 48 ≤ c.toNat := h.1
  have most : c.toNat ≤ 57 := h.2
  simp only [Text.isBlank, Text.inRanges, Text.blankRanges, List.any_cons, List.any_nil, Bool.or_false,
    Bool.or_eq_false_iff, Bool.and_eq_false_iff, decide_eq_false_iff_not]
  omega

theorem dropWhile_isBlank (sign : Option Sign) {c : Char} (h : c.isDigit = true) (cs : List Char) :
    (Sign.text sign ++ c :: cs).dropWhile Text.isBlank = Sign.text sign ++ c :: cs := by
  match sign with
  | none => simp [Sign.text, not_isBlank_of_isDigit h]
  | some .plus => rfl
  | some .minus => rfl

theorem number?_text (sign : Option Sign) {n : Numeral} (h : n.WellFormed) {unit : List Char} (ends : Ends unit) :
    number? (Signed.text sign n unit) = some (Signed.number sign n) := by
  have front : (Signed.text sign n unit).dropWhile Text.isBlank = Signed.text sign n unit := by
    obtain ⟨c, rest, same, digit⟩ := n.exists_text_cons h
    rw [Signed.text, same]
    exact dropWhile_isBlank sign digit (rest ++ unit)
  have signed := Sign.read_numeral sign h unit
  rw [number?, front, Signed.text, signed]
  obtain ⟨whole, digits⟩ := n
  have some : whole.isEmpty = false := by simpa using h.whole_ne_nil
  cases digits with
  | nil =>
    simp only [Numeral.text, List.takeWhile_append_of_pos h.whole, List.dropWhile_append_of_pos h.whole,
      ends.takeWhile, ends.dropWhile, ends.fraction, ends.exponent, List.append_nil, some, Bool.false_and]
    simp [Signed.number, Numeral.decimal, Decimal.shift]
  | cons d digits =>
    have point : ('.' :: (d :: digits ++ unit)).takeWhile Char.isDigit = [] := rfl
    have rest : ('.' :: (d :: digits ++ unit)).dropWhile Char.isDigit = '.' :: (d :: digits ++ unit) := rfl
    simp only [Numeral.text, List.append_assoc, List.cons_append, List.takeWhile_append_of_pos h.whole,
      List.dropWhile_append_of_pos h.whole] at *
    have digitsRead := fraction_of_digits (List.cons_ne_nil d digits) h.fraction ends
    simp only [List.cons_append] at digitsRead
    simp only [point, rest, digitsRead, ends.exponent, List.append_nil, some, Bool.false_and]
    simp [Signed.number, Numeral.decimal, Decimal.shift]

end Leading

end SpeechMarkup
