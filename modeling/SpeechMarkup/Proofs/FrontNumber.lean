import SpeechMarkup.Proofs.Signed

/-! The number at the front of a text, by the grammar of what may stand there: a sign perhaps, digits before a point or
behind one, and an exponent perhaps. Many prefixes of a text can be such numbers; the scan finds the longest of them,
and finds none only where there is none. -/

namespace SpeechMarkup

structure WrittenExponent where
  mark : Char
  sign : Option Sign
  digits : List Char

namespace WrittenExponent

structure WellFormed (x : WrittenExponent) : Prop where
  mark : x.mark = 'e' ∨ x.mark = 'E'
  digits_ne_nil : x.digits ≠ []
  digits : ∀ c ∈ x.digits, c.isDigit = true

def text (x : WrittenExponent) : List Char :=
  x.mark :: (Sign.text x.sign ++ x.digits)

def value (x : WrittenExponent) : Int :=
  if x.sign = some .minus then -Decimal.ofDigits x.digits else Decimal.ofDigits x.digits

def read? : List Char → Option WrittenExponent
  | [] => none
  | c :: rest =>
    let (sign, rest) := Sign.read rest
    let digits := rest.takeWhile Char.isDigit
    if (c = 'e' ∨ c = 'E') ∧ digits ≠ [] then some ⟨c, sign, digits⟩ else none

theorem not_isDigit_mark {x : WrittenExponent} (h : x.WellFormed) : x.mark.isDigit = false := by
  rcases h.mark with mark | mark <;> rw [mark] <;> rfl

theorem read?_text {x : WrittenExponent} (h : x.WellFormed) (rest : List Char) :
    read? (x.text ++ rest) = some { x with digits := x.digits ++ rest.takeWhile Char.isDigit } := by
  obtain ⟨d, digits, shown⟩ := List.exists_cons_of_ne_nil h.digits_ne_nil
  have first : d.isDigit = true := h.digits d (by simp [shown])
  have signed : Sign.read (Sign.text x.sign ++ (x.digits ++ rest)) = (x.sign, x.digits ++ rest) := by
    rw [shown]
    exact Sign.read_text x.sign first (digits ++ rest)
  have taken : (x.digits ++ rest).takeWhile Char.isDigit = x.digits ++ rest.takeWhile Char.isDigit :=
    List.takeWhile_append_of_pos h.digits
  have nonempty : x.digits ++ rest.takeWhile Char.isDigit ≠ [] := by simp [shown]
  rw [text, List.cons_append, List.append_assoc, read?, signed]
  simp only [taken]
  rw [if_pos ⟨h.mark, nonempty⟩]

theorem wellFormed_of_read? {cs : List Char} {x : WrittenExponent} (h : read? cs = some x) :
    x.WellFormed ∧ x.text <+: cs := by
  cases cs with
  | nil => cases h
  | cons c rest =>
    simp only [read?] at h
    split at h
    · next marked =>
      cases h
      refine ⟨⟨marked.1, marked.2, fun d mem => ?_⟩, ?_⟩
      · exact List.all_eq_true.1 List.all_takeWhile d mem
      · have split : Sign.text (Sign.read rest).1 ++ (Sign.read rest).2 = rest := Sign.text_read rest
        refine ⟨(Sign.read rest).2.dropWhile Char.isDigit, ?_⟩
        rw [text, List.cons_append, List.append_assoc, List.takeWhile_append_dropWhile, split]
    · cases h

theorem exponent_eq (cs : List Char) : Leading.exponent cs = ((read? cs).map value).getD 0 := by
  cases cs with
  | nil => rfl
  | cons c rest =>
    by_cases marked : c = 'e' ∨ c = 'E'
    · by_cases none : (Sign.read rest).2.takeWhile Char.isDigit = []
      · simp [Leading.exponent, read?, marked, none, Decimal.ofDigits_nil]
      · simp [Leading.exponent, read?, marked, none, value]
    · have unmarked : (decide (c = 'e') || decide (c = 'E')) = false := by simpa using marked
      simp [Leading.exponent, read?, marked, unmarked]

end WrittenExponent

structure FrontNumber where
  sign : Option Sign
  whole : List Char
  fraction : List Char
  exponent : Option WrittenExponent

namespace FrontNumber

structure WellFormed (n : FrontNumber) : Prop where
  some_digit : n.whole ≠ [] ∨ n.fraction ≠ []
  whole : ∀ c ∈ n.whole, c.isDigit = true
  fraction : ∀ c ∈ n.fraction, c.isDigit = true
  exponent : ∀ x ∈ n.exponent, x.WellFormed

/-- A point stands only where digits stand behind it. -/
def fractionText : List Char → List Char
  | [] => []
  | c :: digits => '.' :: c :: digits

def exponentText (x : Option WrittenExponent) : List Char :=
  (x.map WrittenExponent.text).getD []

def text (n : FrontNumber) : List Char :=
  Sign.text n.sign ++ (n.whole ++ (fractionText n.fraction ++ exponentText n.exponent))

def number (n : FrontNumber) : Binary64 :=
  ((Decimal.ofPlaces n.whole n.fraction).shift ((n.exponent.map WrittenExponent.value).getD 0)).toBinary64
    (n.sign = some .minus)

/-- The number is the longest one at the front of a text. -/
structure Leads (n : FrontNumber) (cs : List Char) : Prop where
  wellFormed : n.WellFormed
  front : n.text <+: cs
  longest : ∀ other : FrontNumber, other.WellFormed → other.text <+: cs → other.text.length ≤ n.text.length

def scan (cs : List Char) : FrontNumber :=
  let (sign, rest) := Sign.read cs
  let (fraction, behind) := Leading.fraction (rest.dropWhile Char.isDigit)
  ⟨sign, rest.takeWhile Char.isDigit, fraction, WrittenExponent.read? behind⟩

theorem number?_eq_scan (cs : List Char) :
    Leading.number? cs =
      let n := scan (cs.dropWhile Text.isBlank)
      if n.whole = [] ∧ n.fraction = [] then none else some n.number := by
  simp only [Leading.number?, scan, number, WrittenExponent.exponent_eq, Bool.and_eq_true, List.isEmpty_iff]
  exact if_congr Iff.rfl rfl rfl

theorem fraction_spec (cs : List Char) :
    fractionText (Leading.fraction cs).1 ++ (Leading.fraction cs).2 = cs ∧
      ∀ c ∈ (Leading.fraction cs).1, c.isDigit = true := by
  unfold Leading.fraction
  split
  · next rest =>
    have split : rest.takeWhile Char.isDigit ++ rest.dropWhile Char.isDigit = rest := List.takeWhile_append_dropWhile
    have all : ∀ c ∈ rest.takeWhile Char.isDigit, c.isDigit = true :=
      fun c mem => List.all_eq_true.1 List.all_takeWhile c mem
    cases taken : rest.takeWhile Char.isDigit with
    | nil => exact ⟨rfl, by simp⟩
    | cons c digits =>
      rw [taken] at split all
      exact ⟨congrArg ('.' :: ·) split, all⟩
  · exact ⟨rfl, by simp⟩

theorem fraction_of_fst_eq_nil {cs : List Char} (h : (Leading.fraction cs).1 = []) : Leading.fraction cs = ([], cs) := by
  have behind := (fraction_spec cs).1
  rw [h] at behind
  exact Prod.ext h behind

theorem wellFormed_scan {cs : List Char} (digit : (scan cs).whole ≠ [] ∨ (scan cs).fraction ≠ []) :
    (scan cs).WellFormed ∧ (scan cs).text <+: cs := by
  have signed : Sign.text (Sign.read cs).1 ++ (Sign.read cs).2 = cs := Sign.text_read cs
  have wholes : (Sign.read cs).2.takeWhile Char.isDigit ++ (Sign.read cs).2.dropWhile Char.isDigit = (Sign.read cs).2 :=
    List.takeWhile_append_dropWhile
  obtain ⟨fractions, places⟩ := fraction_spec ((Sign.read cs).2.dropWhile Char.isDigit)
  have exponents (rest : List Char) : exponentText (WrittenExponent.read? rest) <+: rest := by
    cases found : WrittenExponent.read? rest with
    | none => exact List.nil_prefix
    | some x => exact (WrittenExponent.wellFormed_of_read? found).2
  constructor
  · exact {
      some_digit := digit
      whole := fun c mem => List.all_eq_true.1 List.all_takeWhile c mem
      fraction := places
      exponent := fun x mem => (WrittenExponent.wellFormed_of_read? mem).1 }
  · obtain ⟨rest, behind⟩ := exponents (Leading.fraction ((Sign.read cs).2.dropWhile Char.isDigit)).2
    refine ⟨rest, ?_⟩
    simp only [scan, text, List.append_assoc]
    rw [behind, fractions, wholes, signed]

theorem length_exponentText_pos (x : WrittenExponent) : 0 < (exponentText (some x)).length :=
  Nat.succ_pos _

theorem takeWhile_exponentText {e : WrittenExponent} (h : e.WellFormed) (rest : List Char) :
    (exponentText (some e) ++ rest).takeWhile Char.isDigit = [] ∧
      (exponentText (some e) ++ rest).dropWhile Char.isDigit = exponentText (some e) ++ rest := by
  have letter := WrittenExponent.not_isDigit_mark h
  simp [exponentText, WrittenExponent.text, letter]

/-- Behind digits an exponent is read as it is written, or more is read than is written. -/
theorem exponent_or_longer {x : Option WrittenExponent} (h : ∀ e ∈ x, e.WellFormed) (rest : List Char) :
    (exponentText x ++ rest).takeWhile Char.isDigit = [] ∧
        (exponentText x ++ rest).dropWhile Char.isDigit = exponentText x ++ rest ∧
        WrittenExponent.read? (exponentText x ++ rest) = x ∨
      (exponentText x).length < ((exponentText x ++ rest).takeWhile Char.isDigit).length +
        (exponentText (WrittenExponent.read? ((exponentText x ++ rest).dropWhile Char.isDigit))).length := by
  cases x with
  | some e =>
    have wellFormed := h e rfl
    obtain ⟨none, same⟩ := takeWhile_exponentText wellFormed rest
    have read : WrittenExponent.read? (exponentText (some e) ++ rest) =
        some { e with digits := e.digits ++ rest.takeWhile Char.isDigit } := WrittenExponent.read?_text wellFormed rest
    cases more : rest.takeWhile Char.isDigit with
    | nil =>
      rw [more, List.append_nil] at read
      exact .inl ⟨none, same, read⟩
    | cons d digits =>
      rw [more] at read
      refine .inr ?_
      rw [none, same, read]
      simp only [exponentText, Option.map_some, Option.getD_some, WrittenExponent.text, List.length_cons,
        List.length_append, List.length_nil]
      omega
  | none =>
    change rest.takeWhile Char.isDigit = [] ∧ rest.dropWhile Char.isDigit = rest ∧ WrittenExponent.read? rest = none ∨
      0 < (rest.takeWhile Char.isDigit).length +
        (exponentText (WrittenExponent.read? (rest.dropWhile Char.isDigit))).length
    cases taken : rest.takeWhile Char.isDigit with
    | cons d digits =>
      refine .inr ?_
      simp only [List.length_cons]
      omega
    | nil =>
      have split : rest.takeWhile Char.isDigit ++ rest.dropWhile Char.isDigit = rest := List.takeWhile_append_dropWhile
      rw [taken, List.nil_append] at split
      rw [split]
      cases read : WrittenExponent.read? rest with
      | none => exact .inl ⟨rfl, rfl, rfl⟩
      | some e => exact .inr (Nat.add_pos_right _ (length_exponentText_pos e))

theorem fraction_behind_exponent {e : WrittenExponent} (h : e.WellFormed) (rest : List Char) :
    (Leading.fraction ((exponentText (some e) ++ rest).dropWhile Char.isDigit)).1 = [] := by
  rw [(takeWhile_exponentText h rest).2]
  have notPoint : e.mark ≠ '.' := by
    rcases h.mark with mark | mark <;> rw [mark] <;> decide
  simp only [exponentText, Option.map_some, Option.getD_some, WrittenExponent.text, List.cons_append]
  unfold Leading.fraction
  split
  · next point => exact absurd (List.cons.inj point).1 notPoint
  · rfl

theorem read_sign (sign : Option Sign) {cs : List Char} {c : Char} (h : c.isDigit = true ∨ c = '.') :
    Sign.read (Sign.text sign ++ c :: cs) = (sign, c :: cs) := by
  rcases h with digit | rfl
  · exact Sign.read_text sign digit cs
  · match sign with
    | none => rfl
    | some .plus => rfl
    | some .minus => rfl

theorem fraction_fractionText {digits : List Char} (nonempty : digits ≠ []) (h : ∀ c ∈ digits, c.isDigit = true)
    (rest : List Char) :
    (fractionText digits ++ rest).takeWhile Char.isDigit = [] ∧
      Leading.fraction ((fractionText digits ++ rest).dropWhile Char.isDigit) =
        (digits ++ rest.takeWhile Char.isDigit, rest.dropWhile Char.isDigit) := by
  obtain ⟨c, places, rfl⟩ := List.exists_cons_of_ne_nil nonempty
  refine ⟨rfl, ?_⟩
  change Leading.fraction ('.' :: (c :: places ++ rest)) = _
  simp only [Leading.fraction, List.takeWhile_append_of_pos h, List.dropWhile_append_of_pos h]
  rfl

theorem scan_text {n : FrontNumber} (h : n.WellFormed) (rest : List Char) :
    let behind := fractionText n.fraction ++ (exponentText n.exponent ++ rest)
    let taken := Leading.fraction (behind.dropWhile Char.isDigit)
    scan (n.text ++ rest) =
      ⟨n.sign, n.whole ++ behind.takeWhile Char.isDigit, taken.1, WrittenExponent.read? taken.2⟩ := by
  obtain ⟨sign, whole, fraction, x⟩ := n
  obtain ⟨digit, wholes, fractions, -⟩ := h
  simp only at digit wholes fractions ⊢
  have signed : Sign.read (Sign.text sign ++ (whole ++ (fractionText fraction ++ (exponentText x ++ rest)))) =
      (sign, whole ++ (fractionText fraction ++ (exponentText x ++ rest))) := by
    cases whole with
    | cons c digits => exact read_sign sign (.inl (wholes c List.mem_cons_self))
    | nil =>
      cases fraction with
      | cons c digits => exact read_sign sign (.inr rfl)
      | nil => simp at digit
  simp only [text, List.append_assoc, scan, signed, List.takeWhile_append_of_pos wholes,
    List.dropWhile_append_of_pos wholes]

theorem digit_scan {n : FrontNumber} (h : n.WellFormed) (rest : List Char) :
    (scan (n.text ++ rest)).whole ≠ [] ∨ (scan (n.text ++ rest)).fraction ≠ [] := by
  rw [scan_text h]
  rcases h.some_digit with whole | fraction
  · exact .inl (by simp [whole])
  · refine .inr ?_
    rw [(fraction_fractionText fraction h.fraction _).2]
    simp [fraction]

/-- Whatever number stands at the front, the scan takes it or a longer one. -/
theorem scan_or_longer {n : FrontNumber} (h : n.WellFormed) (rest : List Char) :
    scan (n.text ++ rest) = n ∨ n.text.length < (scan (n.text ++ rest)).text.length := by
  rw [scan_text h]
  obtain ⟨sign, whole, fraction, x⟩ := n
  obtain ⟨-, -, fractions, exponents⟩ := h
  simp only at fractions exponents ⊢
  cases fraction with
  | cons c places =>
    obtain ⟨point, read⟩ := fraction_fractionText (List.cons_ne_nil c places) fractions (exponentText x ++ rest)
    rw [point, read, List.append_nil]
    rcases exponent_or_longer exponents rest with ⟨none, behind, same⟩ | longer
    · refine .inl ?_
      rw [none, behind, same, List.append_nil]
    · refine .inr ?_
      simp only [text, fractionText, List.cons_append, List.length_append, List.length_cons] at longer ⊢
      omega
  | nil =>
    simp only [fractionText, List.nil_append]
    cases places : (Leading.fraction ((exponentText x ++ rest).dropWhile Char.isDigit)).1 with
    | cons c digits =>
      refine .inr ?_
      cases x with
      | some e =>
        rw [fraction_behind_exponent (exponents e rfl)] at places
        cases places
      | none =>
        simp only [text, fractionText, exponentText, Option.map_none, Option.getD_none, List.length_append,
          List.length_cons, List.length_nil]
        omega
    | nil =>
      rw [fraction_of_fst_eq_nil places]
      rcases exponent_or_longer exponents rest with ⟨none, behind, same⟩ | longer
      · refine .inl ?_
        rw [none, behind, same, List.append_nil]
      · refine .inr ?_
        simp only [text, fractionText, List.length_append, List.nil_append] at longer ⊢
        omega

variable {cs : List Char}

theorem leads_scan (digit : (scan cs).whole ≠ [] ∨ (scan cs).fraction ≠ []) : (scan cs).Leads cs := by
  obtain ⟨wellFormed, front⟩ := wellFormed_scan digit
  refine ⟨wellFormed, front, ?_⟩
  rintro other otherFormed ⟨rest, rfl⟩
  rcases scan_or_longer otherFormed rest with same | longer
  · rw [same]
  · exact longer.le

theorem Leads.eq_scan {n : FrontNumber} (h : n.Leads cs) : n = scan cs := by
  obtain ⟨wellFormed, ⟨rest, rfl⟩, longest⟩ := h
  rcases scan_or_longer wellFormed rest with same | longer
  · exact same.symm
  · obtain ⟨scanned, front⟩ := wellFormed_scan (digit_scan wellFormed rest)
    exact absurd (longest _ scanned front) (Nat.not_le.2 longer)

end FrontNumber

/-- The number that a text is read to begin with is the longest one behind its blanks. -/
theorem Leading.number?_eq_some_iff {cs : List Char} {x : Binary64} :
    number? cs = some x ↔ ∃ n : FrontNumber, n.Leads (cs.dropWhile Text.isBlank) ∧ n.number = x := by
  rw [FrontNumber.number?_eq_scan]
  constructor
  · intro found
    dsimp only at found
    split at found
    · cases found
    · next digit =>
      rw [Decidable.not_and_iff_or_not] at digit
      exact ⟨_, FrontNumber.leads_scan digit, Option.some.inj found⟩
  · rintro ⟨n, leads, rfl⟩
    have digit := leads.wellFormed.some_digit
    rw [leads.eq_scan] at digit
    rw [leads.eq_scan]
    exact if_neg fun ⟨whole, fraction⟩ => digit.elim (absurd whole) (absurd fraction)

theorem Leading.number?_eq_none_iff {cs : List Char} :
    number? cs = none ↔ ∀ n : FrontNumber, n.WellFormed → ¬ n.text <+: cs.dropWhile Text.isBlank := by
  rw [FrontNumber.number?_eq_scan]
  constructor
  · rintro none n wellFormed ⟨rest, same⟩
    have digit := FrontNumber.digit_scan wellFormed rest
    rw [same] at digit
    dsimp only at none
    rw [if_neg fun ⟨whole, fraction⟩ => digit.elim (absurd whole) (absurd fraction)] at none
    cases none
  · intro none
    refine if_pos ?_
    by_contra digit
    rw [Decidable.not_and_iff_or_not] at digit
    obtain ⟨wellFormed, front⟩ := FrontNumber.wellFormed_scan digit
    exact none _ wellFormed front

end SpeechMarkup
