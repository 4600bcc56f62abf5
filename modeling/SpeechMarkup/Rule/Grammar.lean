import SpeechMarkup.Element
import SpeechMarkup.Rule.Form
import SpeechMarkup.Tag

/-! The attributes that each tag knows, with the rule of each. -/

namespace SpeechMarkup

/-- Where an element stands, and what it is checked for. The parent has no name at the top of a document. -/
structure Place where
  target : Target
  parent : Option String
  index : Nat

namespace Grammar

def effectNames : List String := ["whispered"]

def emotionNames : List String := ["excited", "disappointed"]

def emotionIntensities : List String := ["low", "medium", "high"]

def domainNames : Locale → List String
  | .enUS => ["news", "music"]
  | .enAU => ["news"]
  | _ => []

def pauseStrengths : List String := ["none", "x-weak", "weak", "medium", "strong", "x-strong"]

def emphasisLevels (platform : Platform) : List String :=
  let levels := ["strong", "moderate", "reduced"]
  if platform = .google then levels ++ ["none"] else levels

def alphabets : List String := ["ipa", "x-sampa"]

def rates : List String := ["x-slow", "slow", "medium", "fast", "x-fast"]

def pitches : List String := ["x-low", "low", "medium", "high", "x-high"]

def volumes : List String := ["silent", "x-soft", "soft", "medium", "loud", "x-loud"]

def interpretations (platform : Platform) : List String :=
  ["characters", "spell-out", "cardinal", "ordinal", "fraction", "unit", "date", "time", "telephone", "expletive"]
    ++ match platform with
      | .generic => []
      | .amazon => ["number", "digits", "address", "interjection"]
      | .google => ["bleep", "verbatim"]

def dateFormats : List String := ["mdy", "dmy", "ymd", "md", "dm", "ym", "my", "d", "m", "y"]

def details : List String := ["1", "2"]

def wordRoles : List String := ["amazon:VB", "amazon:VBD", "amazon:NN", "amazon:SENSE_1"]

def longestPause : Nat := 10000

def number (n : Nat) : Binary64 :=
  .signed false (.ofNat n)

def speeds : NumberRange := ⟨number 50, number 200, number 100⟩

def soundLevels : NumberRange := ⟨(number 40).neg, number 40, number 0⟩

/-- The rate of speech, in percent; upwards it ends at `2 ^ 53 - 1`, the last integer that no other one is
rounded to. -/
def speechRates : NumberRange := ⟨number 20, number 9007199254740991, number 100⟩

def pitchChanges : NumberRange := ⟨(Decimal.mk 333 (-1)).toBinary64 true, number 50, number 0⟩

def keyword (words : List String) (default : String) : AttributeRule :=
  ⟨[.oneOf words], .fixed default⟩

def free : AttributeRule := ⟨[.anything], .nothing⟩

def repeatCount : AttributeRule := ⟨[.quantity "" .plusOnly none], .fixed "1"⟩

def audio (platform : Platform) : List (String × AttributeRule) :=
  let source := ("src", free)
  if platform = .google then
    let duration : AttributeRule := ⟨[.duration none], .nothing⟩
    [("clipBegin", duration), ("clipEnd", duration), ("repeatDur", duration), ("fadeInDur", duration),
      ("fadeOutDur", duration),
      ("speed", ⟨[.quantity "%" .plusOnly (some speeds)], .nearest speeds "%" false⟩),
      ("repeatCount", repeatCount),
      ("soundLevel", ⟨[.quantity "dB" .required (some soundLevels)], .nearest soundLevels "dB" true⟩),
      source]
  else [source]

def media (index : Nat) : List (String × AttributeRule) :=
  let duration : AttributeRule := ⟨[.duration none], .fixed "0s"⟩
  [("xml:id", ⟨[.identifier], .fixed s!"id_{index}"⟩),
    ("begin", ⟨[.timeOffset], .fixed "0s"⟩),
    ("end", ⟨[.timeOffset], .nothing⟩),
    ("repeatCount", repeatCount),
    ("repeatDur", duration), ("fadeInDur", duration), ("fadeOutDur", duration),
    ("soundLevel", ⟨[.quantity "dB" .optional none], .fixed "+0dB"⟩)]

def prosody (platform : Platform) : List (String × AttributeRule) :=
  let percentage : Form := .quantity "%" .required (some pitchChanges)
  let semitones : List Form := if platform = .google then [.quantity "st" .required none] else []
  [("rate", ⟨[.oneOf rates, .quantity "%" .forbidden (some speechRates)], .nearest speechRates "%" false⟩),
    ("pitch", ⟨.oneOf pitches :: percentage :: semitones, .nearest pitchChanges "%" true⟩),
    ("volume", ⟨[.oneOf volumes, .quantity "dB" .required none], .fixed "+0dB"⟩)]

/-- The format belongs to a date, or on the google platform to a time; elsewhere no value is accepted. -/
def sayAs (platform : Platform) (isDate : Bool) : List (String × AttributeRule) :=
  let format : AttributeRule :=
    if isDate then keyword dateFormats "mdy"
    else if platform = .google then ⟨[.timeFormat], .fixed "hms12"⟩
    else ⟨[], .nothing⟩
  let detail := if platform = .google then [("detail", keyword details "1")] else []
  ("interpret-as", keyword (interpretations platform) "cardinal") :: ("format", format) :: detail

end Grammar

namespace Tag

/-- The rules of the attributes that the tag knows, for an element with these attributes. Tags that keep all
attributes have no rules for them. -/
def grammar (tag : Tag) (place : Place) (attributes : Attributes) : List (String × AttributeRule) :=
  match tag with
  | amazonEffect => [("name", Grammar.keyword Grammar.effectNames "whispered")]
  | amazonEmotion =>
    [("name", Grammar.keyword Grammar.emotionNames "excited"),
      ("intensity", Grammar.keyword Grammar.emotionIntensities "medium")]
  | amazonDomain => [("name", Grammar.keyword (Grammar.domainNames place.target.locale) "news")]
  | audio => Grammar.audio place.target.platform
  | pause =>
    [("strength", Grammar.keyword Grammar.pauseStrengths "medium"),
      ("time", ⟨[.duration (some Grammar.longestPause)], .fixed "10s"⟩)]
  | emphasis => [("level", Grammar.keyword (Grammar.emphasisLevels place.target.platform) "moderate")]
  | lang => [("xml:lang", Grammar.keyword (Locale.all.map Locale.tag) Locale.enUS.tag)]
  | media => Grammar.media place.index
  | phoneme => [("alphabet", Grammar.keyword Grammar.alphabets "ipa"), ("ph", Grammar.free)]
  | prosody => Grammar.prosody place.target.platform
  | sayAs => Grammar.sayAs place.target.platform (attributes.get? "interpret-as" = some "date")
  | sub => [("alias", Grammar.free)]
  | voice => [("name", Grammar.free)]
  | word => [("role", Grammar.keyword Grammar.wordRoles "amazon:VB")]
  | paragraph | sentence | desc | par | seq | speak => []

def required : Tag → List (String × String)
  | amazonEffect => [("name", "whispered")]
  | amazonEmotion => [("name", "excited"), ("intensity", "medium")]
  | amazonDomain => [("name", "news")]
  | emphasis => [("level", "moderate")]
  | lang => [("xml:lang", Locale.enUS.tag)]
  | _ => []

def supportedIn (tag : Tag) (locale : Locale) : Bool :=
  match tag with
  | amazonEmotion => locale = .enUS
  | amazonDomain => !(Grammar.domainNames locale).isEmpty
  | _ => true

end Tag

end SpeechMarkup
