/-! What a document is checked for: the voice platform whose attribute grammar applies, and the locale of the
voice. -/

namespace SpeechMarkup

inductive Platform where
  | generic
  | amazon
  | google
deriving DecidableEq

namespace Platform

def name : Platform → String
  | generic => "generic"
  | amazon => "amazon"
  | google => "google"

/-- Any name that is not known selects the generic platform. -/
def ofName (name : String) : Platform :=
  if name = "amazon" then amazon else if name = "google" then google else generic

theorem ofName_name (p : Platform) : ofName p.name = p := by
  cases p <;> decide

end Platform

inductive Locale where
  | enUS
  | enGB
  | enIN
  | enAU
  | enCA
  | deDE
  | esES
  | itIT
  | jaJP
  | frFR
deriving DecidableEq

namespace Locale

def all : List Locale := [enUS, enGB, enIN, enAU, enCA, deDE, esES, itIT, jaJP, frFR]

def tag : Locale → String
  | enUS => "en-US"
  | enGB => "en-GB"
  | enIN => "en-IN"
  | enAU => "en-AU"
  | enCA => "en-CA"
  | deDE => "de-DE"
  | esES => "es-ES"
  | itIT => "it-IT"
  | jaJP => "ja-JP"
  | frFR => "fr-FR"

/-- The locale with exactly this tag. -/
def ofTag? (tag : String) : Option Locale :=
  all.find? fun locale => locale.tag = tag

theorem mem_all (l : Locale) : l ∈ all := by
  cases l <;> decide

theorem ofTag?_tag (l : Locale) : ofTag? l.tag = some l := by
  cases l <;> decide

end Locale

structure Target where
  platform : Platform := .generic
  locale : Locale := .enUS
deriving DecidableEq

end SpeechMarkup
