import SpeechMarkup.Target

/-! The tags of speech markup that have rules, and the attributes that each keeps. -/

namespace SpeechMarkup

inductive Tag where
  | amazonEffect
  | amazonEmotion
  | amazonDomain
  | audio
  | pause
  | desc
  | emphasis
  | lang
  | media
  | paragraph
  | par
  | phoneme
  | prosody
  | sentence
  | sayAs
  | seq
  | speak
  | sub
  | voice
  | word
deriving DecidableEq

namespace Tag

def all : List Tag :=
  [amazonEffect, amazonEmotion, amazonDomain, audio, pause, desc, emphasis, lang, media, paragraph, par, phoneme,
    prosody, sentence, sayAs, seq, speak, sub, voice, word]

def name : Tag → String
  | amazonEffect => "amazon:effect"
  | amazonEmotion => "amazon:emotion"
  | amazonDomain => "amazon:domain"
  | audio => "audio"
  | pause => "break"
  | desc => "desc"
  | emphasis => "emphasis"
  | lang => "lang"
  | media => "media"
  | paragraph => "p"
  | par => "par"
  | phoneme => "phoneme"
  | prosody => "prosody"
  | sentence => "s"
  | sayAs => "say-as"
  | seq => "seq"
  | speak => "speak"
  | sub => "sub"
  | voice => "voice"
  | word => "w"

def alias? : Tag → Option String
  | amazonEffect => some "amazon-effect"
  | amazonEmotion => some "amazon-emotion"
  | amazonDomain => some "amazon-domain"
  | _ => none

def ofName? (name : String) : Option Tag :=
  all.find? fun tag => tag.name = name || tag.alias? = some name

/-- The attributes that the tag keeps on a platform, in order; none where it keeps all of them. -/
def allowed (tag : Tag) (platform : Platform) : Option (List String) :=
  match tag with
  | amazonEffect | amazonDomain | voice => some ["name"]
  | amazonEmotion => some ["intensity", "name"]
  | audio =>
    if platform = .google then
      some ["clipBegin", "clipEnd", "fadeInDur", "fadeOutDur", "repeatCount", "repeatDur", "soundLevel", "speed", "src"]
    else some ["src"]
  | pause => some ["strength", "time"]
  | emphasis => some ["level"]
  | lang => some ["xml:lang"]
  | media =>
    some ["begin", "end", "fadeInDur", "fadeOutDur", "repeatCount", "repeatDur", "soundLevel", "xml:id"]
  | paragraph | sentence => some []
  | phoneme => some ["alphabet", "ph"]
  | prosody => some ["pitch", "rate", "volume"]
  | sayAs =>
    if platform = .google then some ["detail", "format", "interpret-as"] else some ["format", "interpret-as"]
  | sub => some ["alias"]
  | word => some ["role"]
  | desc | par | seq | speak => none

theorem mem_all (t : Tag) : t ∈ all := by
  cases t <;> decide

theorem ofName?_name (t : Tag) : ofName? t.name = some t := by
  cases t <;> decide

theorem ofName?_alias {t : Tag} {name : String} (h : t.alias? = some name) : ofName? name = some t := by
  cases t <;> simp [alias?] at h <;> subst h <;> decide

theorem eq_of_ofName? {t : Tag} {name : String} (h : ofName? name = some t) :
    name = t.name ∨ t.alias? = some name := by
  have found := List.find?_some h
  simp only [Bool.or_eq_true, decide_eq_true_eq] at found
  exact found.imp_left Eq.symm

theorem eq_name_of_ofName? {t : Tag} {name : String} (h : ofName? name = some t) (single : t.alias? = none) :
    name = t.name := by
  refine (eq_of_ofName? h).resolve_right fun second => ?_
  rw [single] at second
  cases second

end Tag

end SpeechMarkup
