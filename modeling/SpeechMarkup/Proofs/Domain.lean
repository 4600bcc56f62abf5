import SpeechMarkup.Proofs.Duration
import SpeechMarkup.Proofs.TimeFormat
import SpeechMarkup.Proofs.TimeOffset
import SpeechMarkup.Proofs.WrittenNumber

/-! The domains of attributes: for each tag a table of the texts that its attributes take, in terms of the grammars of
quantities and not of their readers. The rule of an attribute accepts exactly the texts of its domain, the rules and
the table know the attributes that a tag keeps, and what stands in for a refused value is in the domain. -/

namespace SpeechMarkup

def IsQuantity (signs : List (Option Sign)) (unit text : String) : Prop :=
  ∃ sign ∈ signs, ∃ n : Numeral, n.WellFormed ∧ text.toList = Signed.text sign n unit.toList

/-- A quantity whose nearest double lies between two numbers. -/
def IsQuantityIn (signs : List (Option Sign)) (unit : String) (lo hi : ℚ) (text : String) : Prop :=
  ∃ sign ∈ signs, ∃ n : Numeral, n.WellFormed ∧ text.toList = Signed.text sign n unit.toList ∧
    (Signed.number sign n).Between lo hi

def explicitSigns : List (Option Sign) := [some .plus, some .minus]

def signsUpwards : List (Option Sign) := [none, some .plus]

namespace Domain

def audio (platform : Platform) : List (String × (String → Prop)) :=
  if platform = .google then
    [("clipBegin", IsDuration platform), ("clipEnd", IsDuration platform), ("repeatDur", IsDuration platform),
      ("fadeInDur", IsDuration platform), ("fadeOutDur", IsDuration platform),
      ("speed", IsQuantityIn signsUpwards "%" 50 200), ("repeatCount", IsQuantity signsUpwards ""),
      ("soundLevel", IsQuantityIn explicitSigns "dB" (-40) 40), ("src", fun _ => True)]
  else [("src", fun _ => True)]

def media (platform : Platform) : List (String × (String → Prop)) :=
  [("xml:id", fun text => IsIdentifier text.toList), ("begin", fun text => IsOffset text.toList),
    ("end", fun text => IsOffset text.toList), ("repeatCount", IsQuantity signsUpwards ""),
    ("repeatDur", IsDuration platform), ("fadeInDur", IsDuration platform), ("fadeOutDur", IsDuration platform),
    ("soundLevel", IsQuantity (none :: explicitSigns) "dB")]

def rate (text : String) : Prop :=
  text ∈ ["x-slow", "slow", "medium", "fast", "x-fast"] ∨ IsQuantityIn [none] "%" 20 (2 ^ 53 - 1) text

def pitch (platform : Platform) (text : String) : Prop :=
  text ∈ ["x-low", "low", "medium", "high", "x-high"] ∨ IsQuantityIn explicitSigns "%" (-333 / 10) 50 text ∨
    platform = .google ∧ IsQuantity explicitSigns "st" text

def volume (text : String) : Prop :=
  text ∈ ["silent", "x-soft", "soft", "medium", "loud", "x-loud"] ∨ IsQuantity explicitSigns "dB" text

def interpretation (platform : Platform) (text : String) : Prop :=
  text ∈ ["characters", "spell-out", "cardinal", "ordinal", "fraction", "unit", "date", "time", "telephone",
    "expletive"] ∨
  platform = .amazon ∧ text ∈ ["number", "digits", "address", "interjection"] ∨
  platform = .google ∧ text ∈ ["bleep", "verbatim"]

def format (platform : Platform) (isDate : Bool) (text : String) : Prop :=
  if isDate then text ∈ ["mdy", "dmy", "ymd", "md", "dm", "ym", "my", "d", "m", "y"]
  else platform = .google ∧ IsTimeFormat text.toList

def style (locale : Locale) (text : String) : Prop :=
  locale = .enUS ∧ text ∈ ["news", "music"] ∨ locale = .enAU ∧ text = "news"

end Domain

/-- The texts that the attributes of a tag take on a target, for an element with these attributes. -/
def Tag.domains (tag : Tag) (target : Target) (attributes : Attributes) : List (String × (String → Prop)) :=
  match tag with
  | amazonEffect => [("name", (· ∈ ["whispered"]))]
  | amazonEmotion => [("name", (· ∈ ["excited", "disappointed"])), ("intensity", (· ∈ ["low", "medium", "high"]))]
  | amazonDomain => [("name", Domain.style target.locale)]
  | audio => Domain.audio target.platform
  | pause =>
    [("strength", (· ∈ ["none", "x-weak", "weak", "medium", "strong", "x-strong"])),
      ("time", IsDurationUpTo 10000 target.platform)]
  | emphasis =>
    [("level", fun text => text ∈ ["strong", "moderate", "reduced"] ∨ target.platform = .google ∧ text = "none")]
  | lang =>
    [("xml:lang", (· ∈ ["en-US", "en-GB", "en-IN", "en-AU", "en-CA", "de-DE", "es-ES", "it-IT", "ja-JP", "fr-FR"]))]
  | media => Domain.media target.platform
  | phoneme => [("alphabet", (· ∈ ["ipa", "x-sampa"])), ("ph", fun _ => True)]
  | prosody => [("rate", Domain.rate), ("pitch", Domain.pitch target.platform), ("volume", Domain.volume)]
  | sayAs =>
    [("interpret-as", Domain.interpretation target.platform),
      ("format", Domain.format target.platform (attributes.get? "interpret-as" = some "date"))] ++
      if target.platform = .google then [("detail", (· ∈ ["1", "2"]))] else []
  | sub => [("alias", fun _ => True)]
  | voice => [("name", fun _ => True)]
  | word => [("role", (· ∈ ["amazon:VB", "amazon:VBD", "amazon:NN", "amazon:SENSE_1"]))]
  | paragraph | sentence | desc | par | seq | speak => []

namespace Form

variable {platform : Platform} {text : String}

theorem accepts_oneOf {words : List String} : (oneOf words).accepts platform text = true ↔ text ∈ words := by
  simp [accepts]

theorem accepts_duration_none : (duration none).accepts platform text = true ↔ IsDuration platform text :=
  Duration.isOk_parse_none

theorem accepts_quantity {unit : String} {rule : SignRule} :
    (quantity unit rule none).accepts platform text = true ↔ IsQuantity rule.signs unit text := by
  simp only [accepts, Option.all_none, Bool.and_true, Signed.isOk_parse, Signed.read?_eq_some_iff,
    SignRule.allows_iff]
  constructor
  · rintro ⟨_, sign, n, allowed, wellFormed, same, -⟩
    exact ⟨sign, allowed, n, wellFormed, same⟩
  · rintro ⟨sign, allowed, n, wellFormed, same⟩
    exact ⟨_, sign, n, allowed, wellFormed, same, rfl⟩

/-- The typed reader and the reader of leading numbers see the same number, so the range is judged on what the text
says. -/
theorem accepts_quantity_in {unit : String} {rule : SignRule} {range : NumberRange} {lo hi : ℚ}
    (spans : range.Spans lo hi) (ends : Leading.Ends unit.toList) :
    (quantity unit rule (some range)).accepts platform text = true ↔ IsQuantityIn rule.signs unit lo hi text := by
  have judged {sign : Option Sign} {n : Numeral} (wellFormed : n.WellFormed)
      (same : text.toList = Signed.text sign n unit.toList) :
      (range.judge text).inRange = true ↔ (Signed.number sign n).Between lo hi := by
    have front := Leading.number?_text sign wellFormed ends
    rw [← same] at front
    obtain ⟨q, hq⟩ := NumberRange.exists_value?_number? front
    rw [spans.inRange_judge front hq, Binary64.Between, hq]
    simp
  simp only [accepts, Option.all_some, Bool.and_eq_true, Signed.isOk_parse, Signed.read?_eq_some_iff,
    SignRule.allows_iff]
  constructor
  · rintro ⟨⟨_, sign, n, allowed, wellFormed, same, -⟩, inRange⟩
    exact ⟨sign, allowed, n, wellFormed, same, (judged wellFormed same).1 inRange⟩
  · rintro ⟨sign, allowed, n, wellFormed, same, between⟩
    exact ⟨⟨_, sign, n, allowed, wellFormed, same, rfl⟩, (judged wellFormed same).2 between⟩

end Form

theorem Leading.ends_percent : Ends "%".toList := by
  intro c hc
  cases hc
  decide

theorem Leading.ends_decibels : Ends "dB".toList := by
  intro c hc
  cases hc
  decide

/-- The rule of an attribute accepts exactly the texts of the attribute's domain. -/
def Agrees (platform : Platform) (entry : String × AttributeRule) (domain : String × (String → Prop)) : Prop :=
  entry.1 = domain.1 ∧ ∀ text, entry.2.accepts platform text = true ↔ domain.2 text

section Agrees

variable {platform : Platform} {name : String} {domain : String → Prop}

theorem agrees_single {form : Form} (fallback : Fallback)
    (h : ∀ text, form.accepts platform text = true ↔ domain text) :
    Agrees platform (name, ⟨[form], fallback⟩) (name, domain) := by
  refine ⟨rfl, fun text => ?_⟩
  simpa [AttributeRule.accepts] using h text

theorem agrees_keyword (words : List String) (default : String) :
    Agrees platform (name, Grammar.keyword words default) (name, (· ∈ words)) :=
  agrees_single _ fun _ => Form.accepts_oneOf

theorem agrees_free : Agrees platform (name, Grammar.free) (name, fun _ => True) := by
  refine agrees_single _ fun text => ?_
  simp [Form.accepts]

theorem agrees_pair {words : List String} {form : Form} (fallback : Fallback)
    (h : ∀ text, form.accepts platform text = true ↔ domain text) :
    Agrees platform (name, ⟨[.oneOf words, form], fallback⟩) (name, fun text => text ∈ words ∨ domain text) := by
  refine ⟨rfl, fun text => ?_⟩
  simp only [AttributeRule.accepts, List.any_cons, List.any_nil, Bool.or_false, Bool.or_eq_true,
    Form.accepts_oneOf, h]

theorem agrees_duration (fallback : Fallback) :
    Agrees platform (name, ⟨[.duration none], fallback⟩) (name, IsDuration platform) :=
  agrees_single fallback fun _ => Form.accepts_duration_none

theorem agrees_repeatCount : Agrees platform (name, Grammar.repeatCount) (name, IsQuantity signsUpwards "") :=
  agrees_single _ fun _ => Form.accepts_quantity

end Agrees

namespace Grammar

variable (platform : Platform)

theorem audio_agrees : List.Forall₂ (Agrees platform) (audio platform) (Domain.audio platform) := by
  have speed : Agrees platform ("speed", ⟨[.quantity "%" .plusOnly (some speeds)], .nearest speeds "%" false⟩)
      ("speed", IsQuantityIn signsUpwards "%" 50 200) :=
    agrees_single _ fun _ => Form.accepts_quantity_in speeds_spans Leading.ends_percent
  have level : Agrees platform
      ("soundLevel", ⟨[.quantity "dB" .required (some soundLevels)], .nearest soundLevels "dB" true⟩)
      ("soundLevel", IsQuantityIn explicitSigns "dB" (-40) 40) :=
    agrees_single _ fun _ => Form.accepts_quantity_in soundLevels_spans Leading.ends_decibels
  by_cases google : platform = .google
  · simp only [audio, Domain.audio, google, if_true] at speed level ⊢
    exact .cons (agrees_duration _) (.cons (agrees_duration _) (.cons (agrees_duration _) (.cons (agrees_duration _)
      (.cons (agrees_duration _) (.cons speed (.cons agrees_repeatCount (.cons level (.cons agrees_free .nil))))))))
  · simp only [audio, Domain.audio, google, if_false]
    exact .cons agrees_free .nil

theorem media_agrees (index : Nat) : List.Forall₂ (Agrees platform) (media index) (Domain.media platform) := by
  have identifier : Agrees platform ("xml:id", ⟨[.identifier], .fixed s!"id_{index}"⟩)
      ("xml:id", fun text => IsIdentifier text.toList) := agrees_single _ fun _ => isIdentifier_iff
  have offset (name : String) (fallback : Fallback) : Agrees platform (name, ⟨[.timeOffset], fallback⟩)
      (name, fun text => IsOffset text.toList) := agrees_single _ fun _ => TimeOffset.isOk_parse_iff
  have level : Agrees platform ("soundLevel", ⟨[.quantity "dB" .optional none], .fixed "+0dB"⟩)
      ("soundLevel", IsQuantity (none :: explicitSigns) "dB") := agrees_single _ fun _ => Form.accepts_quantity
  exact .cons identifier (.cons (offset _ _) (.cons (offset _ _) (.cons agrees_repeatCount (.cons (agrees_duration _)
    (.cons (agrees_duration _) (.cons (agrees_duration _) (.cons level .nil)))))))

theorem pitch_agrees (text : String) :
    ((Form.oneOf pitches :: .quantity "%" .required (some pitchChanges) ::
      if platform = .google then [Form.quantity "st" .required none] else []).any
        (Form.accepts platform text)) = true ↔ Domain.pitch platform text := by
  have percentage : (Form.quantity "%" .required (some pitchChanges)).accepts platform text = true ↔
      IsQuantityIn explicitSigns "%" (-333 / 10) 50 text :=
    Form.accepts_quantity_in pitchChanges_spans Leading.ends_percent
  have semitones : (Form.quantity "st" .required none).accepts platform text = true ↔
      IsQuantity explicitSigns "st" text := Form.accepts_quantity
  by_cases google : platform = .google
  · simp only [List.any_cons, google, if_true, List.any_nil, Bool.or_false, Bool.or_eq_true, Domain.pitch,
      Form.accepts_oneOf, true_and] at percentage semitones ⊢
    rw [percentage, semitones, pitches]
  · simp only [List.any_cons, google, if_false, List.any_nil, Bool.or_false, Bool.or_eq_true, Domain.pitch,
      Form.accepts_oneOf, percentage, false_and, or_false, pitches]

theorem prosody_agrees : List.Forall₂ (Agrees platform) (prosody platform)
    [("rate", Domain.rate), ("pitch", Domain.pitch platform), ("volume", Domain.volume)] := by
  have rate : Agrees platform
      ("rate", ⟨[.oneOf rates, .quantity "%" .forbidden (some speechRates)], .nearest speechRates "%" false⟩)
      ("rate", Domain.rate) :=
    agrees_pair _ fun _ => Form.accepts_quantity_in speechRates_spans Leading.ends_percent
  have volume : Agrees platform ("volume", ⟨[.oneOf volumes, .quantity "dB" .required none], .fixed "+0dB"⟩)
      ("volume", Domain.volume) :=
    agrees_pair _ fun _ => Form.accepts_quantity
  exact .cons rate (.cons ⟨rfl, pitch_agrees platform⟩ (.cons volume .nil))

theorem sayAs_agrees (isDate : Bool) : List.Forall₂ (Agrees platform) (sayAs platform isDate)
    ([("interpret-as", Domain.interpretation platform), ("format", Domain.format platform isDate)] ++
      if platform = .google then [("detail", (· ∈ ["1", "2"]))] else []) := by
  have interpretation : Agrees platform ("interpret-as", keyword (interpretations platform) "cardinal")
      ("interpret-as", Domain.interpretation platform) := by
    refine agrees_single _ fun text => ?_
    rw [Form.accepts_oneOf, Domain.interpretation]
    cases platform <;> simp [interpretations, or_assoc]
  have date : Agrees platform ("format", keyword dateFormats "mdy") ("format", Domain.format platform true) :=
    agrees_keyword _ _
  have time (google : platform = .google) : Agrees platform ("format", ⟨[.timeFormat], .fixed "hms12"⟩)
      ("format", Domain.format platform false) := by
    refine agrees_single _ fun text => ?_
    simpa [Domain.format, google, Form.accepts] using isTimeFormat_iff
  have nothing (other : platform ≠ .google) : Agrees platform ("format", ⟨[], .nothing⟩)
      ("format", Domain.format platform false) := by
    refine ⟨rfl, fun text => ?_⟩
    simp [AttributeRule.accepts, Domain.format, other]
  by_cases google : platform = .google
  · simp only [sayAs, google, if_true] at *
    cases isDate with
    | true => exact .cons interpretation (.cons date (.cons (agrees_keyword _ _) .nil))
    | false => exact .cons interpretation (.cons (time trivial) (.cons (agrees_keyword _ _) .nil))
  · simp only [sayAs, google, if_false]
    cases isDate with
    | true => exact .cons interpretation (.cons date .nil)
    | false => exact .cons interpretation (.cons (nothing google) .nil)

end Grammar

theorem Tag.grammar_agrees (tag : Tag) (place : Place) (attributes : Attributes) :
    List.Forall₂ (Agrees place.target.platform) (tag.grammar place attributes)
      (tag.domains place.target attributes) := by
  have one {name : String} {words : List String} {default : String} :
      List.Forall₂ (Agrees place.target.platform) [(name, Grammar.keyword words default)] [(name, (· ∈ words))] :=
    .cons (agrees_keyword words default) .nil
  cases tag with
  | amazonEffect => exact one
  | amazonEmotion => exact .cons (agrees_keyword _ _) (.cons (agrees_keyword _ _) .nil)
  | amazonDomain =>
    refine .cons (agrees_single _ fun text => ?_) .nil
    rw [Form.accepts_oneOf, Domain.style]
    cases place.target.locale <;> simp [Grammar.domainNames]
  | audio => exact Grammar.audio_agrees place.target.platform
  | pause =>
    have time : Agrees place.target.platform ("time", ⟨[.duration (some Grammar.longestPause)], .fixed "10s"⟩)
        ("time", IsDurationUpTo 10000 place.target.platform) :=
      agrees_single _ fun _ => Duration.isOk_parse_some (by decide)
    exact .cons (agrees_keyword _ _) (.cons time .nil)
  | emphasis =>
    refine .cons (agrees_single _ fun text => ?_) .nil
    rw [Form.accepts_oneOf, Grammar.emphasisLevels]
    by_cases google : place.target.platform = .google <;> simp [google, or_assoc]
  | lang => exact one
  | media => exact Grammar.media_agrees place.target.platform place.index
  | phoneme => exact .cons (agrees_keyword _ _) (.cons agrees_free .nil)
  | prosody => exact Grammar.prosody_agrees place.target.platform
  | sayAs => exact Grammar.sayAs_agrees place.target.platform _
  | sub => exact .cons agrees_free .nil
  | voice => exact .cons agrees_free .nil
  | word => exact one
  | paragraph => exact .nil
  | sentence => exact .nil
  | desc => exact .nil
  | par => exact .nil
  | seq => exact .nil
  | speak => exact .nil

end SpeechMarkup
