import SpeechMarkup.Proofs.Accounting
import SpeechMarkup.Proofs.FrontNumber

/-! Numbers that are saved from refused texts. Such a text gives way to the number of the range that is nearest to the
one it begins with, written as the attribute takes it, or to a default where it begins with none. So a number inside the
range is kept, and only its spelling changes. -/

namespace SpeechMarkup

namespace NumberRange

def clamp (range : NumberRange) (x : Binary64) : Binary64 :=
  if x.lt range.least then range.least else if range.greatest.lt x then range.greatest else x

variable {range : NumberRange} {lo hi : ℚ}

theorem value_judge (range : NumberRange) (text : String) :
    (range.judge text).value = ((Leading.number? text.toList).map range.clamp).getD range.fallback := by
  unfold judge
  cases Leading.number? text.toList with
  | none => rfl
  | some x =>
    simp only [Option.map_some, Option.getD_some, clamp]
    split
    · rfl
    · split <;> rfl

theorem Spans.clamp_of_between (spans : range.Spans lo hi) {x : Binary64} (h : x.Between lo hi) :
    range.clamp x = x := by
  obtain ⟨q, value, above, below⟩ := h
  simp [clamp, (spans.below value).2 above, (spans.above value).2 below]

end NumberRange

/-- Of the numbers from `lo` to `hi` none is nearer to `q`. -/
def Binary64.Nearest (lo hi q : ℚ) (x : Binary64) : Prop :=
  ∃ p, x.value? = some p ∧ (lo ≤ p ∧ p ≤ hi) ∧
    ∀ (y : Binary64) (r : ℚ), y.value? = some r → lo ≤ r → r ≤ hi → |p - q| ≤ |r - q|

theorem Binary64.Nearest.plainZero {lo hi q : ℚ} {x : Binary64} (h : x.Nearest lo hi q) :
    x.plainZero.Nearest lo hi q := by
  obtain ⟨p, value, nearest⟩ := h
  exact ⟨p, (Binary64.value?_plainZero x).trans value, nearest⟩

theorem NumberRange.Spans.nearest_clamp {range : NumberRange} {lo hi : ℚ} (spans : range.Spans lo hi) {x : Binary64}
    {q : ℚ} (value : x.value? = some q) : (range.clamp x).Nearest lo hi q := by
  cases low : x.lt range.least with
  | true =>
    have same : range.clamp x = range.least := by simp [clamp, low]
    obtain ⟨p, hp, inside⟩ := spans.least
    rw [same]
    refine ⟨p, hp, inside, fun y r hr above _ => ?_⟩
    have below : q < p := (Binary64.lt_iff value hp).1 low
    have least : p ≤ r := (Binary64.lt_eq_false_iff hr hp).1 ((spans.below hr).2 above)
    rw [abs_of_pos (sub_pos.2 below), abs_of_pos (sub_pos.2 (below.trans_le least))]
    exact sub_le_sub_right least q
  | false =>
    cases high : range.greatest.lt x with
    | true =>
      have same : range.clamp x = range.greatest := by simp [clamp, low, high]
      obtain ⟨p, hp, inside⟩ := spans.greatest
      rw [same]
      refine ⟨p, hp, inside, fun y r hr _ below => ?_⟩
      have above : p < q := (Binary64.lt_iff hp value).1 high
      have greatest : r ≤ p := (Binary64.lt_eq_false_iff hp hr).1 ((spans.above hr).2 below)
      rw [abs_of_neg (sub_neg.2 above), abs_of_neg (sub_neg.2 (greatest.trans_lt above))]
      exact neg_le_neg (sub_le_sub_right greatest q)
    | false =>
      have inside : lo ≤ q ∧ q ≤ hi := ⟨(spans.below value).1 low, (spans.above value).1 high⟩
      rw [spans.clamp_of_between ⟨q, value, inside⟩]
      refine ⟨q, value, inside, fun y r _ _ _ => ?_⟩
      rw [sub_self, abs_zero]
      exact abs_nonneg _

/-- An attribute that says how fast, how loud or how high, from `lo` to `hi` in a unit. -/
structure Measure where
  tag : Tag
  attr : String
  rule : SignRule
  unit : String
  lo : ℚ
  hi : ℚ
  range : NumberRange

namespace Measure

open Grammar (number)

def speed : Measure :=
  ⟨.audio, "speed", .plusOnly, "%", 50, 200, ⟨number 50, number 200, number 100⟩⟩

def soundLevel : Measure :=
  ⟨.audio, "soundLevel", .required, "dB", -40, 40, ⟨(number 40).neg, number 40, number 0⟩⟩

def rate : Measure :=
  ⟨.prosody, "rate", .forbidden, "%", 20, 2 ^ 53 - 1, ⟨number 20, number (2 ^ 53 - 1), number 100⟩⟩

def pitch : Measure :=
  ⟨.prosody, "pitch", .required, "%", -333 / 10, 50, ⟨(Decimal.mk 333 (-1)).toBinary64 true, number 50, number 0⟩⟩

def all (platform : Platform) : List Measure :=
  if platform = .google then [speed, soundLevel, rate, pitch] else [rate, pitch]

/-- What a text is worth: the number that it begins with behind its blanks, moved into the range, or the default. -/
inductive Worth (m : Measure) (text : String) (x : Binary64) : Prop
  | number (n : FrontNumber) (q : ℚ) : n.Leads (text.toList.dropWhile Text.isBlank) → n.number.value? = some q →
    x = (m.range.clamp n.number).plainZero → x.Nearest m.lo m.hi q →
    (n.number.Between m.lo m.hi → x = n.number.plainZero) → Worth m text x
  | default : (∀ n : FrontNumber, n.WellFormed → ¬ n.text <+: text.toList.dropWhile Text.isBlank) →
    x = m.range.fallback → Worth m text x

/-- What the rules say about a measure. -/
structure Ruled (m : Measure) (place : Place) (attributes : Attributes) : Prop where
  rule : ∃ forms, (m.tag.grammar place attributes).lookup m.attr =
    some ⟨forms, .nearest m.range m.unit (m.rule = .required)⟩
  spans : m.range.Spans m.lo m.hi
  sign : m.rule = .required ∨ m.rule.allows none = true ∧ 0 ≤ m.lo
  fallback : m.range.fallback.plainZero = m.range.fallback
  listed : ∃ names, m.tag.allowed place.target.platform = some names
  known : m.tag.supportedIn place.target.locale = true

variable {m : Measure} {place : Place} {attributes : Attributes}

theorem ruled_of_mem (mem : m ∈ all place.target.platform) : m.Ruled place attributes := by
  have plain (n : Nat) : (Grammar.number n).plainZero = Grammar.number n := by
    rw [Grammar.number, Binary64.plainZero, Binary64.isZero_signed]
    split
    · next zero => rw [of_decide_eq_true zero, Binary64.zero]
    · rfl
  have voice : rate.Ruled place attributes :=
    ⟨⟨_, rfl⟩, Grammar.speechRates_spans, .inr ⟨rfl, by norm_num [rate]⟩, plain _, ⟨_, rfl⟩, rfl⟩
  have height : pitch.Ruled place attributes :=
    ⟨⟨_, rfl⟩, Grammar.pitchChanges_spans, .inl rfl, plain _, ⟨_, rfl⟩, rfl⟩
  by_cases google : place.target.platform = .google
  · have pace : speed.Ruled place attributes :=
      ⟨⟨_, by simp only [speed, Tag.grammar, Grammar.audio, google]; rfl⟩, Grammar.speeds_spans,
        .inr ⟨rfl, by norm_num [speed]⟩, plain _, ⟨_, if_pos google⟩, rfl⟩
    have level : soundLevel.Ruled place attributes :=
      ⟨⟨_, by simp only [soundLevel, Tag.grammar, Grammar.audio, google]; rfl⟩, Grammar.soundLevels_spans, .inl rfl,
        plain _, ⟨_, if_pos google⟩, rfl⟩
    simp only [all, google, if_true, List.mem_cons, List.not_mem_nil, or_false] at mem
    rcases mem with rfl | rfl | rfl | rfl <;> assumption
  · simp only [all, google, if_false, List.mem_cons, List.not_mem_nil, or_false] at mem
    rcases mem with rfl | rfl <;> assumption

theorem Ruled.parse_instead (ruled : m.Ruled place attributes) (old : String) :
    ∃ new, (Fallback.nearest m.range m.unit (m.rule = .required)).instead old = some new ∧
      Signed.parse new m.unit m.rule = .ok (m.range.judge old).value.plainZero := by
  refine ⟨_, rfl, ?_⟩
  rcases ruled.sign with required | ⟨unsigned, nonneg⟩
  · obtain ⟨sign, n, wellFormed, written, plain⟩ := Grammar.exists_nearest_signed ruled.spans m.unit old
    rw [if_pos (decide_eq_true required), Signed.parse, written, required, Signed.read?_text rfl wellFormed, ← plain]
  · have notRequired : m.rule ≠ .required := by
      intro required
      rw [required] at unsigned
      cases unsigned
    obtain ⟨n, wellFormed, written, plain⟩ := Grammar.exists_nearest_plain ruled.spans nonneg m.unit old
    rw [if_neg (by simp [notRequired]), Signed.parse, written, Signed.read?_text unsigned wellFormed, ← plain]

theorem Ruled.worth_judge (ruled : m.Ruled place attributes) (old : String) :
    m.Worth old (m.range.judge old).value.plainZero := by
  rw [NumberRange.value_judge]
  cases front : Leading.number? old.toList with
  | none => exact .default (Leading.number?_eq_none_iff.1 front) ruled.fallback
  | some x =>
    obtain ⟨n, leads, rfl⟩ := Leading.number?_eq_some_iff.1 front
    obtain ⟨q, value⟩ := NumberRange.exists_value?_number? front
    refine .number n q leads value rfl (ruled.spans.nearest_clamp value).plainZero fun inside => ?_
    rw [Option.map_some, Option.getD_some, ruled.spans.clamp_of_between inside]

/-- A refused text gives way to one that the attribute takes, and that is read as the number that the refused one is
worth. -/
theorem check_of_refused (place : Place) (e : Element) {m : Measure} (mem : m ∈ all place.target.platform)
    {old : String} (found : e.attributes.get? m.attr = some old)
    (refused : m.tag.Refuses place.target e.attributes m.attr old) :
    let after := (m.tag.check place e).element.attributes
    ∃ new x, after.get? m.attr = some new ∧ ¬ m.tag.Refuses place.target after m.attr new ∧
      Signed.parse new m.unit m.rule = .ok x ∧ m.Worth old x := by
  have ruled : m.Ruled place e.attributes := ruled_of_mem mem
  obtain ⟨names, listed⟩ := ruled.listed
  obtain ⟨forms, rule⟩ := ruled.rule
  obtain ⟨new, instead, read⟩ := ruled.parse_instead old
  have kept : m.attr ∈ names := by
    by_contra stranger
    rw [(Tag.lookup_grammar_eq_none_iff listed e.attributes m.attr).2 stranger] at rule
    cases rule
  have verdict : judge (m.tag.grammar place e.attributes) place.target.platform m.attr old = .replace new := by
    have notAccepted := (Tag.refuses_iff listed e.attributes kept old).1 refused
    rw [judge, rule] at notAccepted ⊢
    dsimp only at notAccepted ⊢
    split at notAccepted
    · exact absurd rfl notAccepted
    · next rejected => rw [if_neg rejected, instead]
  intro after
  have checked := Tag.check_of_supported listed ruled.known e
  have settled : after.get? m.attr = some new := by
    simp only [after, checked, Plan.element_outcome, Tag.get?_settle_repairAttributes, Tag.get?_repairAttributes, found,
      Option.bind_some, verdict, Verdict.outcome, Option.some_or]
  have accepts : m.tag.Accepts place after := by
    simp only [after, checked, Plan.element_outcome]
    exact Tag.accepts_settle ruled.known (Tag.accepts_repairAttributes ruled.known)
  have accepted : ¬ m.tag.Refuses place.target after m.attr new := by
    rw [Tag.refuses_iff listed after kept, not_not]
    exact accepts m.attr new settled
  exact ⟨new, _, settled, accepted, read, ruled.worth_judge old⟩

/-- A level in the range that is written with an exponent keeps its number. -/
theorem check_of_refused_soundLevel :
    let place : Place := ⟨{ platform := .google }, some "speak", 0⟩
    let e : Element := { name := "audio", attributes := Dictionary.empty.insert "soundLevel" " -.125e2 dB" }
    let after := (Tag.audio.check place e).element.attributes
    soundLevel ∈ all place.target.platform ∧ e.attributes.get? "soundLevel" = some " -.125e2 dB" ∧
      Tag.audio.Refuses place.target e.attributes "soundLevel" " -.125e2 dB" ∧
      after.get? "soundLevel" = some "-12.5dB" ∧
      ∃ new x, after.get? "soundLevel" = some new ∧ ¬ Tag.audio.Refuses place.target after "soundLevel" new ∧
        Signed.parse new "dB" .required = .ok x ∧ soundLevel.Worth " -.125e2 dB" x := by
  intro place e after
  have mem : soundLevel ∈ all place.target.platform := by simp [place, all]
  have found : e.attributes.get? "soundLevel" = some " -.125e2 dB" := by decide +kernel
  have refused : Tag.audio.Refuses place.target e.attributes "soundLevel" " -.125e2 dB" := by
    rw [Tag.refuses_iff rfl e.attributes (by decide)]
    intro accepted
    have kept := congrArg (Verdict.outcome " -.125e2 dB") accepted
    revert kept
    decide +kernel
  exact ⟨mem, found, refused, by decide +kernel, check_of_refused place e mem found refused⟩

end Measure

end SpeechMarkup
