import SpeechMarkup.Proofs.FrontScan
import SpeechMarkup.Proofs.NearestNumber
import SpeechMarkup.Proofs.SignedQuantity

/-! The number of a text in a range. It is the longest number at the front of the text, behind blanks, moved to the end
of the range that it lies beyond; what stands behind it plays no part. A text that is read as a quantity is judged by
the number that is read, as no unit goes on like a number. So what the ranges of attributes let stand is a quantity
inside them, and all of these stand. -/

namespace SpeechMarkup

namespace Binary64

theorem lt_eq_true_iff {x y : Binary64} :
    x.lt y = true ↔ ∃ a b, x.place? = some a ∧ y.place? = some b ∧ a < b := by
  unfold lt
  cases x.place? <;> cases y.place? <;> simp

theorem lt_trans {x y z : Binary64} (first : x.lt y = true) (second : y.lt z = true) : x.lt z = true := by
  obtain ⟨a, b, hx, hy, below⟩ := lt_eq_true_iff.1 first
  obtain ⟨b', c, hy', hz, below'⟩ := lt_eq_true_iff.1 second
  obtain rfl : b = b' := Option.some.inj (hy.symm.trans hy')
  exact lt_eq_true_iff.2 ⟨a, c, hx, hz, below.trans below'⟩

end Binary64

namespace NumberRange

/-- What becomes of a text in a range, by the longest number at its front. -/
inductive Judges (range : NumberRange) (text : String) : Bounded → Prop
  | fallback : (∀ n : FrontNumber, n.WellFormed → ¬ n.text <+: text.toList.dropWhile Text.isBlank) →
    Judges range text ⟨false, range.fallback⟩
  | least {n : FrontNumber} {x : Binary64} : n.Leads (text.toList.dropWhile Text.isBlank) →
    x.NearestTo n.sign n.size → x.lt range.least = true → Judges range text ⟨false, range.least⟩
  | greatest {n : FrontNumber} {x : Binary64} : n.Leads (text.toList.dropWhile Text.isBlank) →
    x.NearestTo n.sign n.size → range.greatest.lt x = true → Judges range text ⟨false, range.greatest⟩
  | inside {n : FrontNumber} {x : Binary64} : n.Leads (text.toList.dropWhile Text.isBlank) →
    x.NearestTo n.sign n.size → x.lt range.least = false → range.greatest.lt x = false → Judges range text ⟨true, x⟩

/-- The same judgement on a number that is cut off at a place among the bytes. -/
def judgeBytes (range : NumberRange) (text : String) : Except CutFault Bounded := do
  match ← Leading.Bytes.number text with
  | none => return ⟨false, range.fallback⟩
  | some x =>
    if x.lt range.least then return ⟨false, range.least⟩
    else if range.greatest.lt x then return ⟨false, range.greatest⟩
    else return ⟨true, x⟩

variable {range : NumberRange} {text : String} {x : Binary64}

theorem judge_of_none (front : Leading.number? text.toList = none) : range.judge text = ⟨false, range.fallback⟩ := by
  rw [judge, front]

theorem judge_of_lt (front : Leading.number? text.toList = some x) (below : x.lt range.least = true) :
    range.judge text = ⟨false, range.least⟩ := by
  simp only [judge, front, below, if_true]

theorem judge_of_gt (front : Leading.number? text.toList = some x) (notBelow : x.lt range.least = false)
    (above : range.greatest.lt x = true) : range.judge text = ⟨false, range.greatest⟩ := by
  simp only [judge, front, notBelow, above, if_true, Bool.false_eq_true, if_false]

theorem judge_of_inside (front : Leading.number? text.toList = some x) (notBelow : x.lt range.least = false)
    (notAbove : range.greatest.lt x = false) : range.judge text = ⟨true, x⟩ := by
  simp only [judge, front, notBelow, notAbove, Bool.false_eq_true, if_false]

theorem not_below_of_above (ordered : range.greatest.lt range.least = false) (above : range.greatest.lt x = true) :
    x.lt range.least = false := by
  rw [← Bool.not_eq_true]
  intro below
  rw [Binary64.lt_trans above below] at ordered
  cases ordered

theorem number?_of_leads {n : FrontNumber} (leads : n.Leads (text.toList.dropWhile Text.isBlank))
    (nearest : x.NearestTo n.sign n.size) : Leading.number? text.toList = some x := by
  rw [Leading.number?_eq_some_iff]
  exact ⟨n, leads, n.nearestTo_number.unique nearest⟩

theorem judges_judge (range : NumberRange) (text : String) : range.Judges text (range.judge text) := by
  cases front : Leading.number? text.toList with
  | none =>
    rw [judge_of_none front]
    exact .fallback (Leading.number?_eq_none_iff.1 front)
  | some x =>
    obtain ⟨n, leads, same⟩ := Leading.number?_eq_some_iff.1 front
    have nearest : x.NearestTo n.sign n.size := same ▸ n.nearestTo_number
    cases below : x.lt range.least with
    | true =>
      rw [judge_of_lt front below]
      exact .least leads nearest below
    | false =>
      cases above : range.greatest.lt x with
      | true =>
        rw [judge_of_gt front below above]
        exact .greatest leads nearest above
      | false =>
        rw [judge_of_inside front below above]
        exact .inside leads nearest below above

theorem judge_of_judges (ordered : range.greatest.lt range.least = false) {result : Bounded}
    (h : range.Judges text result) : range.judge text = result := by
  cases h with
  | fallback none => exact judge_of_none (Leading.number?_eq_none_iff.2 none)
  | least leads nearest below => exact judge_of_lt (number?_of_leads leads nearest) below
  | greatest leads nearest above =>
    exact judge_of_gt (number?_of_leads leads nearest) (not_below_of_above ordered above) above
  | inside leads nearest notBelow notAbove => exact judge_of_inside (number?_of_leads leads nearest) notBelow notAbove

theorem judgeBytes_eq (range : NumberRange) (text : String) : range.judgeBytes text = .ok (range.judge text) := by
  simp only [judgeBytes, Leading.Bytes.number_eq, judge]
  cases Leading.number? text.toList with
  | none => rfl
  | some x =>
    simp only [bind, Except.bind, pure, Except.pure]
    split
    · rfl
    · split <;> rfl

theorem judge_text_of_leads (range : NumberRange) {n : FrontNumber}
    (leads : n.Leads (text.toList.dropWhile Text.isBlank)) :
    range.judge text = range.judge (String.ofList n.text) := by
  have alone : n.Leads ((String.ofList n.text).toList.dropWhile Text.isBlank) := by
    rw [String.toList_ofList, FrontNumber.dropWhile_isBlank_text leads.wellFormed]
    exact FrontNumber.leads_text leads.wellFormed
  rw [judge, judge, number?_of_leads leads n.nearestTo_number, number?_of_leads alone n.nearestTo_number]

/-- A text is judged by the longest number at its front. The scan that finds it by places among the bytes cuts through no
character, what it cuts off is read, and what stands behind the number could as well be missing. -/
theorem judge_eq_iff_judges (range : NumberRange) (ordered : range.greatest.lt range.least = false) (text : String) :
    (∀ result, range.judge text = result ↔ range.Judges text result) ∧
    range.judgeBytes text = .ok (range.judge text) ∧
    ∀ n : FrontNumber, n.Leads (text.toList.dropWhile Text.isBlank) →
      range.judge text = range.judge (String.ofList n.text) := by
  refine ⟨fun result => ⟨?_, judge_of_judges ordered⟩, judgeBytes_eq range text, fun n => judge_text_of_leads range⟩
  rintro rfl
  exact judges_judge range text

/-- Behind a blank the number goes on to the digit of its exponent, so it is less than it looks. -/
theorem judge_eq_iff_judges_speed :
    let range : NumberRange := ⟨Grammar.number 50, Grammar.number 200, Grammar.number 100⟩
    let n : FrontNumber := ⟨some .plus, ['9', '9'], ['5'], some ⟨'e', some .minus, ['1']⟩⟩
    range.greatest.lt range.least = false ∧ n.Leads ("\t+99.5e-1e%".toList.dropWhile Text.isBlank) ∧
      range.Judges "\t+99.5e-1e%" ⟨false, Grammar.number 50⟩ ∧
      range.judge "\t+99.5e-1e%" = range.judge (String.ofList n.text) := by
  intro range n
  have ordered : range.greatest.lt range.least = false := by decide +kernel
  have scanned : FrontNumber.scan ("\t+99.5e-1e%".toList.dropWhile Text.isBlank) = n := rfl
  have leads : n.Leads ("\t+99.5e-1e%".toList.dropWhile Text.isBlank) :=
    scanned ▸ FrontNumber.leads_scan (.inl (by rw [scanned]; simp [n]))
  have judged : range.judge "\t+99.5e-1e%" = ⟨false, Grammar.number 50⟩ := by decide +kernel
  obtain ⟨law, -, alone⟩ := judge_eq_iff_judges range ordered "\t+99.5e-1e%"
  exact ⟨ordered, leads, (law _).1 judged, alone n leads⟩

end NumberRange

namespace Signed

variable {rule : SignRule} {unit text : String} {x : Binary64}

theorem isSuffix_of_isQuantity {signs : List (Option Sign)} (h : IsQuantity signs unit text) :
    unit.toList <:+ text.toList := by
  obtain ⟨sign, -, n, -, same⟩ := h
  exact ⟨Sign.text sign ++ n.text, by rw [same, Signed.text, List.append_assoc]⟩

theorem number?_of_parse (ends : Leading.Ends unit.toList) (read : parse text unit rule = .ok x) :
    Leading.number? text.toList = some x := by
  obtain ⟨sign, n, -, wellFormed, same, rfl⟩ := read?_eq_some_iff.1 (parse_eq_ok_iff_read.1 read)
  rw [same]
  exact Leading.number?_text sign wellFormed ends

theorem isQuantityIn_iff_of_parse {lo hi : ℚ} (read : parse text unit rule = .ok x) :
    IsQuantityIn rule.signs unit lo hi text ↔ x.Between lo hi := by
  obtain ⟨sign, n, allowed, wellFormed, same, rfl⟩ := read?_eq_some_iff.1 (parse_eq_ok_iff_read.1 read)
  constructor
  · rintro ⟨sign', -, n', wellFormed', same', between⟩
    obtain ⟨rfl, rfl⟩ := text_inj_of_unit wellFormed wellFormed' (same.symm.trans same')
    exact between
  · intro between
    exact ⟨sign, SignRule.allows_iff.1 allowed, n, wellFormed, same, between⟩

end Signed

namespace Measure

/-- On this target the tag has a domain for the attribute that a quantity in the unit is in where it is in the range. -/
def Bounds (m : Measure) (target : Target) (attributes : Attributes) : Prop :=
  ∃ domain, (m.tag.domains target attributes).lookup m.attr = some domain ∧
    ∀ text, IsQuantity m.rule.signs m.unit text →
      (domain text ↔ IsQuantityIn m.rule.signs m.unit m.lo m.hi text)

variable {m : Measure} {text : String} {x : Binary64}

theorem bounds_of_mem {target : Target} (mem : m ∈ all target.platform) (attributes : Attributes) :
    m.Bounds target attributes := by
  have noWord {words : List String} (apart : ∀ word ∈ words, ¬ "%".toList <:+ word.toList) {text : String}
      (percentage : "%".toList <:+ text.toList) : text ∉ words := fun word => apart text word percentage
  have voice : rate.Bounds target attributes := by
    refine ⟨Domain.rate, rfl, fun text quantity => ?_⟩
    exact or_iff_right (noWord (by decide) (Signed.isSuffix_of_isQuantity quantity))
  have height : pitch.Bounds target attributes := by
    refine ⟨Domain.pitch target.platform, rfl, fun text quantity => ?_⟩
    have percentage := Signed.isSuffix_of_isQuantity quantity
    refine (or_iff_right (noWord (by decide) percentage)).trans (or_iff_left ?_)
    rintro ⟨-, semitones⟩
    have both := List.suffix_or_suffix_of_suffix percentage (Signed.isSuffix_of_isQuantity semitones)
    revert both
    decide
  by_cases google : target.platform = .google
  · have source (attr : String) :
        (Tag.audio.domains target attributes).lookup attr = (Domain.audio .google).lookup attr := by
      rw [Tag.domains, google]
    simp only [all, google, if_true, List.mem_cons, List.not_mem_nil, or_false] at mem
    rcases mem with rfl | rfl | rfl | rfl
    · exact ⟨_, source "speed", fun _ _ => Iff.rfl⟩
    · exact ⟨_, source "soundLevel", fun _ _ => Iff.rfl⟩
    · exact voice
    · exact height
  · simp only [all, google, if_false, List.mem_cons, List.not_mem_nil, or_false] at mem
    rcases mem with rfl | rfl <;> assumption

theorem refuses_iff_of_parse {target : Target} (mem : m ∈ all target.platform) (attributes : Attributes)
    (read : Signed.parse text m.unit m.rule = .ok x) :
    m.tag.Refuses target attributes m.attr text ↔ ¬ x.Between m.lo m.hi := by
  obtain ⟨domain, found, bounds⟩ := bounds_of_mem mem attributes
  have quantity : IsQuantity m.rule.signs m.unit text := Signed.mem_language_iff.1 ⟨x, read⟩
  rw [← Signed.isQuantityIn_iff_of_parse read, ← bounds text quantity, Tag.Refuses, found]
  simp

theorem kept_iff_of_parse {place : Place} (e : Element) (mem : m ∈ all place.target.platform)
    (found : e.attributes.get? m.attr = some text) (read : Signed.parse text m.unit m.rule = .ok x) :
    (m.tag.check place e).element.attributes.get? m.attr = some text ↔ x.Between m.lo m.hi := by
  have ruled : m.Ruled place e.attributes := ruled_of_mem mem
  obtain ⟨names, listed⟩ := ruled.listed
  obtain ⟨domain, rule, -⟩ := bounds_of_mem mem e.attributes
  have name : m.attr ∈ names := (Tag.mem_allowed_iff listed e.attributes m.attr).2 ⟨domain, rule⟩
  have account := m.tag.check_accounted place e listed (Tag.knownIn_iff.2 ruled.known)
  have refuses := refuses_iff_of_parse mem (m.tag.check place e).element.attributes read
  constructor
  · intro kept
    by_contra outside
    exact account.refused m.attr name text found (refuses.2 outside) kept
  · intro inside
    exact account.accepted m.attr name text found (fun refused => refuses.1 refused inside)

end Measure

/-- A text that is read as a quantity is judged by the number that is read from it, in whatever range, if the unit does
not go on like a number. So a rate, a pitch, a speed or a level that is read in its unit stays where its number is in
the documented range, and there only. -/
theorem Signed.judge_of_parse :
    (∀ (text unit : String) (rule : SignRule) (x : Binary64), Leading.Ends unit.toList →
      parse text unit rule = .ok x → ∀ range : NumberRange, range.greatest.lt range.least = false →
        (x.lt range.least = false → range.greatest.lt x = false → range.judge text = ⟨true, x⟩) ∧
        (x.lt range.least = true → range.judge text = ⟨false, range.least⟩) ∧
        (range.greatest.lt x = true → range.judge text = ⟨false, range.greatest⟩)) ∧
    ∀ (place : Place) (e : Element), ∀ m ∈ Measure.all place.target.platform, ∀ (text : String) (x : Binary64),
      e.attributes.get? m.attr = some text → parse text m.unit m.rule = .ok x →
      ((m.tag.check place e).element.attributes.get? m.attr = some text ↔ x.Between m.lo m.hi) := by
  constructor
  · intro text unit rule x ends read range ordered
    have front : Leading.number? text.toList = some x := number?_of_parse ends read
    refine ⟨NumberRange.judge_of_inside front, NumberRange.judge_of_lt front, fun above => ?_⟩
    exact NumberRange.judge_of_gt front (NumberRange.not_below_of_above ordered above) above
  · intro place e m mem text x found read
    exact Measure.kept_iff_of_parse e mem found read

/-- A level that is read in decibels and lies below the range, and a pitch that is its lower end. -/
theorem Signed.judge_of_parse_soundLevel :
    let place : Place := ⟨{ platform := .google }, some "speak", 0⟩
    let level := (Decimal.mk 4025 (-2)).toBinary64 true
    let pitch := (Decimal.mk 333 (-1)).toBinary64 true
    let e : Element := { name := "prosody", attributes := Dictionary.empty.insert "pitch" "-033.30%" }
    Leading.Ends "dB".toList ∧ parse "-40.25dB" "dB" .required = .ok level ∧
      Grammar.soundLevels.greatest.lt Grammar.soundLevels.least = false ∧
      level.lt Grammar.soundLevels.least = true ∧
      Grammar.soundLevels.judge "-40.25dB" = ⟨false, Grammar.soundLevels.least⟩ ∧
      Measure.pitch ∈ Measure.all place.target.platform ∧ e.attributes.get? "pitch" = some "-033.30%" ∧
      parse "-033.30%" "%" .required = .ok pitch ∧ pitch.Between (-333 / 10) 50 := by
  intro place level pitch e
  have levelRead : parse "-40.25dB" "dB" .required = .ok level := by decide +kernel
  have ordered : Grammar.soundLevels.greatest.lt Grammar.soundLevels.least = false := by decide +kernel
  have below : level.lt Grammar.soundLevels.least = true := by decide +kernel
  have judged := (judge_of_parse.1 _ _ _ _ Leading.ends_decibels levelRead _ ordered).2.1 below
  have mem : Measure.pitch ∈ Measure.all place.target.platform := by simp [place, Measure.all]
  have found : e.attributes.get? "pitch" = some "-033.30%" := by decide +kernel
  have pitchRead : parse "-033.30%" "%" .required = .ok pitch := by decide +kernel
  have kept : (Measure.pitch.tag.check place e).element.attributes.get? Measure.pitch.attr = some "-033.30%" := by
    decide +kernel
  exact ⟨Leading.ends_decibels, levelRead, ordered, below, judged, mem, found, pitchRead,
    (judge_of_parse.2 place e Measure.pitch mem _ _ found pitchRead).1 kept⟩

end SpeechMarkup
