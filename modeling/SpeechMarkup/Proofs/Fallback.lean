import SpeechMarkup.Proofs.Domain

/-! What stands in for a refused value is itself accepted, on every target whose voices know the tag: the fixed
values by inspection, and the nearest number of a range since its text reads back as that number. -/

namespace SpeechMarkup

def AttributeRule.Sound (platform : Platform) (rule : AttributeRule) : Prop :=
  ∀ value new, rule.fallback.instead value = some new → rule.accepts platform new = true

theorem isIdentifier_id (index : Nat) : IsIdentifier s!"id_{index}".toList := by
  have spelled : s!"id_{index}".toList = ['i', 'd', '_'] ++ Decimal.digits index := by
    simp [Decimal.digits]
    rfl
  have front : ∀ c ∈ ['i', 'd', '_'], c.isAlphanum = true ∨ c ∈ ['-', '_', '#'] := by simp
  have plain {c : Char} (h : c.isAlphanum = true) : Text.isAlphanumeric c = true := by
    simp [Text.isAlphanumeric, h]
  rw [spelled]
  refine ⟨by simp, fun c mem => ?_⟩
  rcases List.mem_append.1 mem with mark | digit
  · exact (front c mark).imp_left plain
  · refine .inl (plain ?_)
    simp [Char.isAlphanum, Decimal.isDigit_of_mem_digits digit]

namespace Grammar

section Sound

variable {platform : Platform} {forms : List Form}

theorem sound_fixed {value : String} (h : (AttributeRule.mk forms (.fixed value)).accepts platform value = true) :
    AttributeRule.Sound platform ⟨forms, .fixed value⟩ := by
  intro refused new same
  cases same
  exact h

theorem sound_nothing : AttributeRule.Sound platform ⟨forms, .nothing⟩ := by
  intro refused new same
  cases same

theorem sound_free : free.Sound platform :=
  sound_nothing

theorem sound_keyword {words : List String} {default : String} (h : default ∈ words) :
    (keyword words default).Sound platform := by
  refine sound_fixed ?_
  simpa [AttributeRule.accepts, Form.accepts] using h

theorem accepts_of_mem {form : Form} {fallback : Fallback} {text : String} (mem : form ∈ forms)
    (h : form.accepts platform text = true) : (AttributeRule.mk forms fallback).accepts platform text = true :=
  List.any_eq_true.2 ⟨form, mem, h⟩

variable {range : NumberRange} {lo hi : ℚ} {unit : String}

theorem between_plainZero {x y : Binary64} (same : y = x.plainZero) (h : x.Between lo hi) : y.Between lo hi := by
  rw [same, Binary64.Between, Binary64.value?_plainZero]
  exact h

theorem exists_nearest_signed (spans : range.Spans lo hi) (unit value : String) :
    ∃ sign n, n.WellFormed ∧
      ((range.judge value).value.signedText unit).toList = Signed.text (some sign) n unit.toList ∧
        Signed.number (some sign) n = (range.judge value).value.plainZero := by
  have between := spans.between_judge value
  obtain ⟨negative, m, number, finite⟩ := between.finite spans.finite.1 spans.finite.2
  rw [number]
  exact ⟨_, Binary64.exists_signedText negative finite unit⟩

theorem exists_nearest_plain (spans : range.Spans lo hi) (nonneg : 0 ≤ lo) (unit value : String) :
    ∃ n, Numeral.WellFormed n ∧
      ((range.judge value).value.text ++ unit).toList = Signed.text none n unit.toList ∧
        Signed.number none n = (range.judge value).value.plainZero := by
  have between := spans.between_judge value
  obtain ⟨negative, m, number, finite⟩ := between.finite spans.finite.1 spans.finite.2
  have unsigned : (Binary64.signed negative m).sign = none := by
    obtain ⟨q, hq, above, -⟩ := between
    rw [number] at hq
    have zero : Binary64.zero.value? = some 0 := by
      simp [Binary64.zero, Binary64.value?, Magnitude.value_zero]
    rw [Binary64.sign, (Binary64.lt_eq_false_iff hq zero).2 (nonneg.trans above)]
    rfl
  have written := Binary64.exists_text negative finite unit
  rw [unsigned] at written
  rw [number]
  exact written

theorem sound_nearest_signed (spans : range.Spans lo hi) (ends : Leading.Ends unit.toList)
    (mem : .quantity unit .required (some range) ∈ forms) :
    AttributeRule.Sound platform ⟨forms, .nearest range unit true⟩ := by
  intro value new same
  cases same
  obtain ⟨sign, n, wellFormed, written, plain⟩ := exists_nearest_signed spans unit value
  refine accepts_of_mem mem ((Form.accepts_quantity_in spans ends).2 ⟨some sign, ?_, n, wellFormed, written, ?_⟩)
  · cases sign <;> decide
  · exact between_plainZero plain (spans.between_judge value)

theorem sound_nearest_plain (rule : SignRule) (spans : range.Spans lo hi) (ends : Leading.Ends unit.toList)
    (nonneg : 0 ≤ lo) (allowed : none ∈ rule.signs) (mem : .quantity unit rule (some range) ∈ forms) :
    AttributeRule.Sound platform ⟨forms, .nearest range unit false⟩ := by
  intro value new same
  cases same
  obtain ⟨n, wellFormed, written, plain⟩ := exists_nearest_plain spans nonneg unit value
  refine accepts_of_mem mem ((Form.accepts_quantity_in spans ends).2 ⟨none, allowed, n, wellFormed, written, ?_⟩)
  exact between_plainZero plain (spans.between_judge value)

end Sound

variable (platform : Platform)

theorem sound_zeroSeconds : AttributeRule.Sound platform ⟨[.duration none], .fixed "0s"⟩ :=
  sound_fixed (by cases platform <;> decide)

theorem sound_repeatCount : repeatCount.Sound platform :=
  sound_fixed (by cases platform <;> decide)

theorem sound_audio : ∀ entry ∈ audio platform, entry.2.Sound platform := by
  have speed : AttributeRule.Sound platform
      ⟨[.quantity "%" .plusOnly (some speeds)], .nearest speeds "%" false⟩ :=
    sound_nearest_plain .plusOnly speeds_spans Leading.ends_percent (by norm_num) (by decide) (by simp)
  have level : AttributeRule.Sound platform
      ⟨[.quantity "dB" .required (some soundLevels)], .nearest soundLevels "dB" true⟩ :=
    sound_nearest_signed soundLevels_spans Leading.ends_decibels (by simp)
  unfold audio
  split
  · simp only [List.forall_mem_cons]
    exact ⟨sound_nothing, sound_nothing, sound_nothing, sound_nothing, sound_nothing, speed,
      sound_repeatCount platform, level, sound_free, by simp⟩
  · simpa using sound_free

theorem sound_media (index : Nat) : ∀ entry ∈ media index, entry.2.Sound platform := by
  have identifier : AttributeRule.Sound platform ⟨[.identifier], .fixed s!"id_{index}"⟩ :=
    sound_fixed (accepts_of_mem List.mem_cons_self (isIdentifier_iff.2 (isIdentifier_id index)))
  have start : AttributeRule.Sound platform ⟨[.timeOffset], .fixed "0s"⟩ :=
    sound_fixed (by cases platform <;> decide)
  have level : AttributeRule.Sound platform ⟨[.quantity "dB" .optional none], .fixed "+0dB"⟩ :=
    sound_fixed (by cases platform <;> decide)
  simp only [media, List.forall_mem_cons]
  exact ⟨identifier, start, sound_nothing, sound_repeatCount platform, sound_zeroSeconds platform,
    sound_zeroSeconds platform, sound_zeroSeconds platform, level, by simp⟩

theorem sound_prosody : ∀ entry ∈ prosody platform, entry.2.Sound platform := by
  have rate : AttributeRule.Sound platform
      ⟨[.oneOf rates, .quantity "%" .forbidden (some speechRates)], .nearest speechRates "%" false⟩ :=
    sound_nearest_plain .forbidden speechRates_spans Leading.ends_percent (by norm_num) (by decide) (by simp)
  have volume : AttributeRule.Sound platform ⟨[.oneOf volumes, .quantity "dB" .required none], .fixed "+0dB"⟩ :=
    sound_fixed (by cases platform <;> decide)
  simp only [prosody, List.forall_mem_cons]
  exact ⟨rate, sound_nearest_signed pitchChanges_spans Leading.ends_percent (by simp), volume, by simp⟩

theorem sound_sayAs (isDate : Bool) : ∀ entry ∈ sayAs platform isDate, entry.2.Sound platform := by
  have interpretation : (keyword (interpretations platform) "cardinal").Sound platform :=
    sound_keyword (by cases platform <;> decide)
  have format : AttributeRule.Sound platform
      (if isDate then keyword dateFormats "mdy"
      else if platform = .google then ⟨[.timeFormat], .fixed "hms12"⟩ else ⟨[], .nothing⟩) := by
    split
    · exact sound_keyword (by decide)
    · split
      · exact sound_fixed (by cases platform <;> decide)
      · exact sound_nothing
  have detail : (keyword details "1").Sound platform := sound_keyword (by decide)
  simp only [sayAs, List.forall_mem_cons]
  refine ⟨interpretation, format, ?_⟩
  split
  · simpa using detail
  · simp

end Grammar

/-- On a target whose voices know the tag, every rule accepts what it puts in place of a refused value. -/
theorem Tag.sound_grammar (tag : Tag) (place : Place) (attributes : Attributes)
    (supported : tag.supportedIn place.target.locale = true) :
    ∀ entry ∈ tag.grammar place attributes, entry.2.Sound place.target.platform := by
  cases tag with
  | audio => exact Grammar.sound_audio _
  | media => exact Grammar.sound_media _ _
  | prosody => exact Grammar.sound_prosody _
  | sayAs => exact Grammar.sound_sayAs _ _
  | amazonEffect => simpa [grammar] using Grammar.sound_keyword (by decide)
  | amazonEmotion =>
    simpa [grammar] using ⟨Grammar.sound_keyword (by decide), Grammar.sound_keyword (by decide)⟩
  | amazonDomain =>
    have news : "news" ∈ Grammar.domainNames place.target.locale := by
      revert supported
      cases place.target.locale <;> decide
    simpa [grammar] using Grammar.sound_keyword news
  | pause =>
    have time : AttributeRule.Sound place.target.platform
        ⟨[.duration (some Grammar.longestPause)], .fixed "10s"⟩ :=
      Grammar.sound_fixed (by cases place.target.platform <;> decide)
    simpa [grammar] using ⟨Grammar.sound_keyword (by decide), time⟩
  | emphasis =>
    have moderate : "moderate" ∈ Grammar.emphasisLevels place.target.platform := by
      cases place.target.platform <;> decide
    simpa [grammar] using Grammar.sound_keyword moderate
  | lang => simpa [grammar] using Grammar.sound_keyword (by decide)
  | phoneme => simpa [grammar] using ⟨Grammar.sound_keyword (by decide), Grammar.sound_free⟩
  | sub => simpa [grammar] using Grammar.sound_free
  | voice => simpa [grammar] using Grammar.sound_free
  | word => simpa [grammar] using Grammar.sound_keyword (by decide)
  | _ => simp [grammar]

end SpeechMarkup
