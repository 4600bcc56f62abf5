import SpeechMarkup.Proofs.Rounding
import SpeechMarkup.Proofs.TimeOffset

/-! The parts that a time offset is put together from. A text is read exactly where it is the text of some parts, and
what is read is what they stand for. No text is put together in two ways: the sign inside an offset from an edge
tells it from a clock value, and the first point tells where its identifier ends. The time is rounded twice: the
numeral to a double, and its product with the milliseconds of the unit. -/

namespace SpeechMarkup

def ClockUnit.length : ClockUnit → ℚ
  | millisecond => 1
  | second => 1000
  | minute => 60 * 1000
  | hour => 60 * 60 * 1000

theorem ClockUnit.length_eq (unit : ClockUnit) : unit.length = unit.millis := by
  cases unit <;> norm_num [length, millis]

/-- A clock value as it is written: a sign perhaps, a numeral and a unit. -/
structure ClockParts where
  sign : Option Sign
  numeral : Numeral
  unit : ClockUnit

namespace ClockParts

def text (clock : ClockParts) : List Char :=
  Signed.text clock.sign clock.numeral clock.unit.symbol

/-- The double nearest to the numeral gives the double nearest to its product with the length of the unit, and the
sign goes with it. -/
def Lasts (clock : ClockParts) (millis : Binary64) : Prop :=
  ∃ number : Magnitude, number.NearestTo clock.numeral.value ∧
    millis.NearestTo clock.sign (number.value * clock.unit.length)

def millis (clock : ClockParts) : Binary64 :=
  (Signed.number clock.sign clock.numeral).scale clock.unit.millis

theorem lasts_millis (clock : ClockParts) : clock.Lasts clock.millis := by
  obtain ⟨number, nearest, same⟩ := Signed.nearestTo_number clock.sign clock.numeral
  refine ⟨number, nearest, number.scale clock.unit.millis, ?_, ?_⟩
  · rw [ClockUnit.length_eq]
    exact number.nearestTo_scale clock.unit.millis
  · rw [millis, same, Binary64.scale]

theorem lasts_iff {clock : ClockParts} {x : Binary64} : clock.Lasts x ↔ x = clock.millis := by
  constructor
  · rintro ⟨number, nearest, lasts⟩
    obtain ⟨other, nearest', lasts'⟩ := clock.lasts_millis
    rw [nearest'.unique nearest] at lasts'
    exact lasts.unique lasts'
  · rintro rfl
    exact clock.lasts_millis

theorem text_inj {a b : ClockParts} (ha : a.numeral.WellFormed) (hb : b.numeral.WellFormed) (same : a.text = b.text) :
    a = b := by
  obtain ⟨signs, numerals, symbols⟩ := Signed.text_inj ha hb a.unit.ends_symbol b.unit.ends_symbol same
  have units := ClockUnit.symbol_inj symbols
  obtain ⟨sign, numeral, unit⟩ := a
  obtain ⟨sign', numeral', unit'⟩ := b
  simp_all only

theorem not_sign_of_mem_tail {clock : ClockParts} (h : clock.numeral.WellFormed) :
    ∀ c ∈ clock.text.tail, c ≠ '+' ∧ c ≠ '-' := by
  have inUnit : ∀ c ∈ clock.unit.symbol, c ≠ '+' ∧ c ≠ '-' := by
    cases clock.unit <;> simp [ClockUnit.symbol]
  have inNumeral : ∀ c ∈ clock.numeral.text, c ≠ '+' ∧ c ≠ '-' := by
    intro c mem
    rcases Numeral.mem_text h mem with digit | rfl
    · constructor <;> rintro rfl <;> cases digit
    · decide
  intro c mem
  have behind : c ∈ clock.numeral.text ++ clock.unit.symbol := by
    unfold text Signed.text at mem
    match signed : clock.sign with
    | none => exact List.mem_of_mem_tail (by simpa [signed, Sign.text] using mem)
    | some .plus => simpa [signed, Sign.text] using mem
    | some .minus => simpa [signed, Sign.text] using mem
  exact (List.mem_append.1 behind).elim (inNumeral c) (inUnit c)

end ClockParts

/-- The parts of a time offset: a clock value, or an identifier, an edge and a clock value. -/
inductive OffsetParts where
  | clock (value : ClockParts)
  | syncbase (id : List Char) (edge : Edge) (value : ClockParts)

namespace OffsetParts

def WellFormed : OffsetParts → Prop
  | clock value => value.numeral.WellFormed
  | syncbase id _ value => IsIdentifier id ∧ value.sign ≠ none ∧ value.numeral.WellFormed

def text : OffsetParts → List Char
  | clock value => value.text
  | syncbase id edge value => id ++ '.' :: (edge.keyword ++ value.text)

def offset : OffsetParts → TimeOffset
  | clock value => .clock value.millis
  | syncbase id edge value => .syncbase (String.ofList id) edge value.millis

/-- The offset that has these parts, with the time that the clock value lasts. -/
def Tells : OffsetParts → TimeOffset → Prop
  | clock value, x => ∃ millis, value.Lasts millis ∧ x = .clock millis
  | syncbase id edge value, x => ∃ millis, value.Lasts millis ∧ x = .syncbase (String.ofList id) edge millis

theorem tells_iff {parts : OffsetParts} {x : TimeOffset} : parts.Tells x ↔ x = parts.offset := by
  cases parts <;> simp [Tells, offset, ClockParts.lasts_iff]

/-- An offset from an edge shows its sign behind the identifier, where no clock value has one. -/
theorem text_clock_ne_syncbase {clock value : ClockParts} {id : List Char} {edge : Edge}
    (h : clock.numeral.WellFormed) (identifier : IsIdentifier id) (signed : value.sign ≠ none) :
    clock.text ≠ id ++ '.' :: (edge.keyword ++ value.text) := by
  intro same
  obtain ⟨c, rest, rfl⟩ := List.exists_cons_of_ne_nil identifier.1
  obtain ⟨sign, shown⟩ := Option.ne_none_iff_exists'.1 signed
  have tail := congrArg List.tail same
  have none := ClockParts.not_sign_of_mem_tail h
  rw [tail] at none
  cases sign
  · exact (none '+' (by simp [ClockParts.text, Signed.text, shown, Sign.text])).1 rfl
  · exact (none '-' (by simp [ClockParts.text, Signed.text, shown, Sign.text])).2 rfl

theorem text_inj {a b : OffsetParts} (ha : a.WellFormed) (hb : b.WellFormed) (same : a.text = b.text) : a = b := by
  cases a with
  | clock value =>
    cases b with
    | clock other => rw [ClockParts.text_inj ha hb same]
    | syncbase id edge other => exact absurd same (text_clock_ne_syncbase ha hb.1 hb.2.1)
  | syncbase id edge value =>
    cases b with
    | clock other => exact absurd same.symm (text_clock_ne_syncbase hb ha.1 ha.2.1)
    | syncbase id' edge' other =>
      obtain ⟨front, behind⟩ := span_at_point (ne_point_of_identifier ha.1) (edge.keyword ++ value.text)
      obtain ⟨front', behind'⟩ := span_at_point (ne_point_of_identifier hb.1) (edge'.keyword ++ other.text)
      simp only [text] at same
      rw [same, front'] at front
      rw [same, behind'] at behind
      have keywords : Edge.read? (edge'.keyword ++ other.text) = some (edge, value.text) :=
        Edge.read?_eq_some_iff.2 (List.cons.inj behind).2
      rw [Edge.read?_eq_some_iff.2 rfl] at keywords
      obtain ⟨sameEdge, sameText⟩ := Prod.mk.inj (Option.some.inj keywords)
      rw [ClockParts.text_inj hb.2.2 ha.2.2 sameText, front, sameEdge]

end OffsetParts

namespace TimeOffset

theorem clock_read_iff {rule : SignRule} {cs : List Char} {x : Binary64} :
    clockMillis? rule cs = some x ↔ ∃ clock : ClockParts, rule.allows clock.sign = true ∧ clock.numeral.WellFormed ∧
      clock.text = cs ∧ clock.millis = x := by
  rw [clockMillis?_eq_some_iff]
  constructor
  · rintro ⟨sign, n, unit, allowed, wellFormed, rfl, rfl⟩
    exact ⟨⟨sign, n, unit⟩, allowed, wellFormed, rfl, rfl⟩
  · rintro ⟨⟨sign, n, unit⟩, allowed, wellFormed, rfl, rfl⟩
    exact ⟨sign, n, unit, allowed, wellFormed, rfl, rfl⟩

/-- What is read is what the parts stand for. A clock value is looked for first, but it takes no text away from an
offset from an edge. -/
theorem read?_eq_some_iff {cs : List Char} {x : TimeOffset} :
    read? cs = some x ↔ ∃ parts : OffsetParts, parts.WellFormed ∧ parts.text = cs ∧ parts.offset = x := by
  have complete (parts : OffsetParts) (wellFormed : parts.WellFormed) : read? parts.text = some parts.offset := by
    cases parts with
    | clock value =>
      have found : clockMillis? .optional value.text = some value.millis :=
        clock_read_iff.2 ⟨value, rfl, wellFormed, rfl, rfl⟩
      simp [read?, OffsetParts.text, found, OffsetParts.offset]
    | syncbase id edge value =>
      obtain ⟨identifier, signed, numeral⟩ := wellFormed
      have noClock : clockMillis? .optional (OffsetParts.syncbase id edge value).text = none := by
        refine Option.eq_none_iff_forall_ne_some.2 fun millis found => ?_
        obtain ⟨clock, -, wellFormed, same, -⟩ := clock_read_iff.1 found
        exact OffsetParts.text_clock_ne_syncbase wellFormed identifier signed same
      have offset : clockMillis? .required value.text = some value.millis :=
        clock_read_iff.2 ⟨value, Option.isSome_iff_ne_none.2 signed, numeral, rfl, rfl⟩
      rw [read?, noClock]
      exact syncbase?_eq_some_iff.2 ⟨id, edge, value.text, value.millis, identifier, offset, rfl, rfl⟩
  constructor
  · intro found
    rcases Option.or_eq_some_iff.1 found with clock | ⟨-, syncbase⟩
    · obtain ⟨millis, read, rfl⟩ := Option.map_eq_some_iff.1 clock
      obtain ⟨value, -, wellFormed, same, rfl⟩ := clock_read_iff.1 read
      exact ⟨.clock value, wellFormed, same, rfl⟩
    · obtain ⟨id, edge, rest, millis, identifier, read, rfl, rfl⟩ := syncbase?_eq_some_iff.1 syncbase
      obtain ⟨value, allowed, wellFormed, rfl, rfl⟩ := clock_read_iff.1 read
      exact ⟨.syncbase id edge value, ⟨identifier, Option.isSome_iff_ne_none.1 allowed, wellFormed⟩, rfl, rfl⟩
  · rintro ⟨parts, wellFormed, rfl, rfl⟩
    exact complete parts wellFormed

/-- A text is read as an offset exactly where it is put together from the parts of one, which are then the only ones,
and every other text is malformed. -/
theorem parse_iff_parts (text : String) :
    (∀ x, parse text = .ok x ↔ ∃ parts : OffsetParts, parts.WellFormed ∧ parts.text = text.toList ∧ parts.Tells x) ∧
    (∀ a b : OffsetParts, a.WellFormed → b.WellFormed → a.text = text.toList → b.text = text.toList → a = b) ∧
    (∀ error, parse text = .error error ↔
      error = .malformed text ∧ ∀ parts : OffsetParts, parts.WellFormed → parts.text ≠ text.toList) := by
  refine ⟨fun x => ?_, fun a b ha hb same same' => OffsetParts.text_inj ha hb (same.trans same'.symm), fun error => ?_⟩
  · have told (parts : OffsetParts) : parts.Tells x ↔ parts.offset = x := OffsetParts.tells_iff.trans eq_comm
    simp only [told]
    rw [← read?_eq_some_iff]
    unfold parse
    cases read? text.toList <;> simp
  · have refused : read? text.toList = none ↔ ∀ parts : OffsetParts, parts.WellFormed → parts.text ≠ text.toList := by
      rw [Option.eq_none_iff_forall_ne_some]
      constructor
      · intro none parts wellFormed same
        exact none parts.offset (read?_eq_some_iff.2 ⟨parts, wellFormed, same, rfl⟩)
      · intro none x found
        obtain ⟨parts, wellFormed, same, -⟩ := read?_eq_some_iff.1 found
        exact none parts wellFormed same
    rw [← refused]
    unfold parse
    cases read? text.toList <;> simp [eq_comm]

/-- Half an hour before the end of `intro`. Without its unit the text is malformed. -/
theorem parse_iff_parts_intro :
    (∃ m : Magnitude, m.value = 1800000 ∧ parse "intro.end-0.5h" = .ok (.syncbase "intro" .finish (.signed true m))) ∧
      parse "intro.end-0.5" = .error (.malformed "intro.end-0.5") := by
  let half : Magnitude := ⟨1022 * Magnitude.binade, by decide⟩
  let parts : OffsetParts := .syncbase ['i', 'n', 't', 'r', 'o'] .finish ⟨some .minus, ⟨['0'], ['5']⟩, .hour⟩
  have halfValue : half.value = 1 / 2 := by
    have units : half.units * 2 = 1 * Magnitude.unitsPerOne := by decide +kernel
    exact_mod_cast Magnitude.value_of_units_mul two_pos units
  have total : (Magnitude.ofNat 1800000).value = 1800000 := by
    exact_mod_cast Magnitude.value_of_units (n := 1800000) (by decide +kernel)
  refine ⟨⟨.ofNat 1800000, total, ((parse_iff_parts _).1 _).2 ⟨parts, ?_, rfl, _, ⟨half, ?_, _, ?_, rfl⟩, rfl⟩⟩, ?_⟩
  · have identifier : IsIdentifier ['i', 'n', 't', 'r', 'o'] := isIdentifier_iff.1 (by decide +kernel)
    exact ⟨identifier, by simp, by simp, by simp, by simp⟩
  · have exact : (Numeral.mk ['0'] ['5']).value = half.value := by
      have digits : (Numeral.mk ['0'] ['5']).decimal.significand = 5 := rfl
      rw [halfValue, Numeral.value, digits]
      norm_num
    rw [exact]
    exact half.nearestTo_value
  · have product : half.value * ClockUnit.hour.length = (Magnitude.ofNat 1800000).value := by
      rw [halfValue, total, ClockUnit.length]
      norm_num
    rw [product]
    exact Magnitude.nearestTo_value _
  · rfl

end TimeOffset

end SpeechMarkup
