import SpeechMarkup.Proofs.Signed
import SpeechMarkup.Quantity.Time

/-! The grammar of time offsets beside their reader. A clock value is a quantity with one of four units, and only one
of them fits a text. An offset is a clock value, or an identifier, an edge and a clock value with its sign. -/

namespace SpeechMarkup

/-- Letters and numbers of any script, and three marks; at least one of them. -/
def IsIdentifier (cs : List Char) : Prop :=
  cs ≠ [] ∧ ∀ c ∈ cs, Text.isAlphanumeric c = true ∨ c ∈ ['-', '_', '#']

/-- A clock value with one of some signs. -/
def IsClock (signs : List (Option Sign)) (cs : List Char) : Prop :=
  ∃ sign ∈ signs, ∃ (n : Numeral) (unit : ClockUnit), n.WellFormed ∧ cs = Signed.text sign n unit.symbol

/-- The begin or the end of another element, and a clock value away from it. -/
def IsSyncbase (cs : List Char) : Prop :=
  ∃ (id : List Char) (edge : Edge) (offset : List Char),
    IsIdentifier id ∧ IsClock [some .plus, some .minus] offset ∧ cs = id ++ '.' :: (edge.keyword ++ offset)

def IsOffset (cs : List Char) : Prop :=
  IsClock [none, some .plus, some .minus] cs ∨ IsSyncbase cs

def SignRule.signs : SignRule → List (Option Sign)
  | forbidden => [none]
  | plusOnly => [none, some .plus]
  | optional => [none, some .plus, some .minus]
  | required => [some .plus, some .minus]

theorem SignRule.allows_iff {rule : SignRule} {sign : Option Sign} : rule.allows sign = true ↔ sign ∈ rule.signs := by
  rcases sign with _ | _ | _ <;> cases rule <;> decide

theorem isIdentifier_iff {cs : List Char} : isIdentifier cs = true ↔ IsIdentifier cs := by
  simp [isIdentifier, isIdentifierChar, IsIdentifier, or_assoc]

theorem ne_point_of_identifier {cs : List Char} (h : IsIdentifier cs) : ∀ c ∈ cs, c ≠ '.' := by
  rintro _ mem rfl
  have notAlphanumeric : Text.isAlphanumeric '.' = false := by decide +kernel
  rcases h.2 '.' mem with alphanumeric | mark
  · rw [notAlphanumeric] at alphanumeric
    cases alphanumeric
  · revert mark
    decide

theorem ClockUnit.ends_symbol (unit : ClockUnit) : Leading.Ends unit.symbol := by
  intro c hc
  cases unit <;> cases hc <;> decide

theorem ClockUnit.symbol_inj {unit other : ClockUnit} (same : unit.symbol = other.symbol) : unit = other := by
  cases unit <;> cases other <;> first | rfl | cases same

theorem ClockUnit.mem_all (unit : ClockUnit) : unit ∈ all := by
  cases unit <;> decide

theorem clockMillis?_eq_some_iff {rule : SignRule} {cs : List Char} {x : Binary64} :
    clockMillis? rule cs = some x ↔
      ∃ (sign : Option Sign) (n : Numeral) (unit : ClockUnit), rule.allows sign = true ∧ n.WellFormed ∧
        cs = Signed.text sign n unit.symbol ∧ x = (Signed.number sign n).scale unit.millis := by
  constructor
  · intro h
    obtain ⟨unit, -, found⟩ := List.exists_of_findSome?_eq_some h
    obtain ⟨y, read, rfl⟩ := Option.map_eq_some_iff.1 found
    obtain ⟨sign, n, allowed, wellFormed, rfl, rfl⟩ := Signed.read?_eq_some_iff.1 read
    exact ⟨sign, n, unit, allowed, wellFormed, rfl, rfl⟩
  · rintro ⟨sign, n, unit, allowed, wellFormed, rfl, rfl⟩
    have others (other : ClockUnit) (x : Binary64)
        (h : (Signed.read? rule other.symbol (Signed.text sign n unit.symbol)).map (·.scale other.millis) = some x) :
        x = (Signed.number sign n).scale unit.millis := by
      obtain ⟨y, read, rfl⟩ := Option.map_eq_some_iff.1 h
      obtain ⟨sign', n', -, wellFormed', same, rfl⟩ := Signed.read?_eq_some_iff.1 read
      obtain ⟨rfl, rfl, symbols⟩ := Signed.text_inj wellFormed wellFormed' unit.ends_symbol other.ends_symbol same
      cases ClockUnit.symbol_inj symbols
      rfl
    cases found : clockMillis? rule (Signed.text sign n unit.symbol) with
    | none =>
      have := List.findSome?_eq_none_iff.1 found unit unit.mem_all
      rw [Signed.read?_text allowed wellFormed] at this
      cases this
    | some x =>
      obtain ⟨other, -, read⟩ := List.exists_of_findSome?_eq_some found
      rw [others other x read]

theorem exists_clockMillis? {rule : SignRule} {cs : List Char} :
    (∃ x, clockMillis? rule cs = some x) ↔ IsClock rule.signs cs := by
  simp only [clockMillis?_eq_some_iff, SignRule.allows_iff]
  constructor
  · rintro ⟨_, sign, n, unit, allowed, wellFormed, same, -⟩
    exact ⟨sign, allowed, n, unit, wellFormed, same⟩
  · rintro ⟨sign, allowed, n, unit, wellFormed, same⟩
    exact ⟨_, sign, n, unit, allowed, wellFormed, same, rfl⟩

theorem exists_clockMillis?_optional {cs : List Char} :
    (∃ x, clockMillis? .optional cs = some x) ↔ IsClock [none, some .plus, some .minus] cs :=
  exists_clockMillis?

theorem exists_clockMillis?_required {cs : List Char} :
    (∃ x, clockMillis? .required cs = some x) ↔ IsClock [some .plus, some .minus] cs :=
  exists_clockMillis?

theorem Edge.read?_eq_some_iff {cs rest : List Char} {edge : Edge} :
    read? cs = some (edge, rest) ↔ cs = edge.keyword ++ rest := by
  constructor
  · intro h
    obtain ⟨found, -, taken⟩ := List.exists_of_findSome?_eq_some h
    obtain ⟨rest, front, same⟩ := Option.map_eq_some_iff.1 taken
    cases same
    exact (List.isPrefixOf?_eq_some_iff_append_eq.1 front).symm
  · rintro rfl
    cases edge <;> rfl

namespace TimeOffset

theorem syncbase?_eq_some_iff {cs : List Char} {x : TimeOffset} :
    syncbase? cs = some x ↔
      ∃ (id : List Char) (edge : Edge) (offset : List Char) (millis : Binary64), IsIdentifier id ∧
        clockMillis? .required offset = some millis ∧ cs = id ++ '.' :: (edge.keyword ++ offset) ∧
          x = syncbase (String.ofList id) edge millis := by
  constructor
  · intro h
    have split : cs.takeWhile (· ≠ '.') ++ cs.dropWhile (· ≠ '.') = cs := List.takeWhile_append_dropWhile
    simp only [syncbase?, Option.bind_eq_bind, Option.bind_eq_some_iff, Option.pure_def, Option.some.injEq] at h
    obtain ⟨_, identifier, ⟨edge, offset⟩, keyword, millis, clock, rfl⟩ := h
    replace identifier := isIdentifier_iff.1 ((Option.guard_eq_some' _).1 identifier)
    rw [Edge.read?_eq_some_iff] at keyword
    refine ⟨_, edge, offset, millis, identifier, clock, ?_, rfl⟩
    cases rest : cs.dropWhile (· ≠ '.') with
    | nil =>
      rw [rest] at keyword
      cases edge <;> cases keyword
    | cons c behind =>
      rw [rest, point_of_dropWhile rest] at split
      rw [rest, List.tail_cons] at keyword
      rw [← keyword, split]
  · rintro ⟨id, edge, offset, millis, identifier, clock, rfl, rfl⟩
    obtain ⟨front, behind⟩ := span_at_point (ne_point_of_identifier identifier) (edge.keyword ++ offset)
    have keyword : Edge.read? (edge.keyword ++ offset) = some (edge, offset) := Edge.read?_eq_some_iff.2 rfl
    simp only [syncbase?, front, behind, List.tail_cons, keyword, clock, isIdentifier_iff.2 identifier, guard, if_true,
      Option.bind_eq_bind, Option.pure_def, Option.bind_some]

theorem isOk_parse_iff {text : String} : (parse text).isOk = true ↔ IsOffset text.toList := by
  have accepted : (parse text).isOk = true ↔ ∃ offset, read? text.toList = some offset := by
    unfold parse
    cases read? text.toList <;> simp [Except.isOk, Except.toBool]
  rw [accepted, IsOffset, ← exists_clockMillis?_optional]
  constructor
  · rintro ⟨offset, read⟩
    rcases Option.or_eq_some_iff.1 read with clock | ⟨-, syncbase⟩
    · obtain ⟨x, found, -⟩ := Option.map_eq_some_iff.1 clock
      exact .inl ⟨x, found⟩
    · obtain ⟨id, edge, rest, millis, identifier, clock, same, -⟩ := syncbase?_eq_some_iff.1 syncbase
      exact .inr ⟨id, edge, rest, identifier, exists_clockMillis?_required.1 ⟨millis, clock⟩, same⟩
  · rintro (⟨x, found⟩ | ⟨id, edge, rest, identifier, clock, same⟩)
    · exact ⟨clock x, by simp [read?, found]⟩
    · obtain ⟨millis, found⟩ := exists_clockMillis?_required.2 clock
      have syncbase := syncbase?_eq_some_iff.2 ⟨id, edge, rest, millis, identifier, found, same, rfl⟩
      rw [read?, syncbase]
      cases clockMillis? .optional text.toList with
      | none => exact ⟨_, rfl⟩
      | some x => exact ⟨_, rfl⟩

end TimeOffset

end SpeechMarkup
