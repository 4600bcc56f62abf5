import SpeechMarkup.Config
import SpeechMarkup.Json.Decode
import SpeechMarkup.Json.Printer

/-! The JSON form of platforms and locales, which are strings with their names, and of configurations: an object with
the members `platform`, `locale` and `failureMode`, each of which may be left out. -/

namespace SpeechMarkup

open Json

def Platform.toValue (p : Platform) : Value :=
  .string p.name

/-- Reads any string; a name that is not known gives the generic platform. -/
def Platform.read : Reader Platform := fun text =>
  (readString text).map fun (name, rest) => (ofName name, rest)

def Locale.toValue (l : Locale) : Value :=
  .string l.tag

def Locale.choices : List (String × Locale) :=
  all.map fun locale => (locale.tag, locale)

def Locale.read (levels : Nat) : Reader Locale :=
  readChoice choices levels

def FailureMode.toValue (mode : FailureMode) : Value :=
  .string mode.name

def FailureMode.choices : List (String × FailureMode) :=
  all.map fun mode => (mode.name, mode)

def FailureMode.ofValue (v : Value) : Except ReadError FailureMode :=
  v.sorted.asChoice choices

namespace Config

def toValue (config : Config) : Value :=
  .object [
    ("platform", config.platform.toValue), ("locale", config.locale.toValue),
    ("failureMode", config.failureMode.toValue)]

structure Draft where
  platform : Option Platform := none
  locale : Option Locale := none
  failureMode : Option FailureMode := none

def record (levels : Nat) : Record Draft Config where
  fields := [
    .of "platform" false Draft.platform (fun draft platform => { draft with platform := some platform })
      Platform.read,
    .of "locale" false Draft.locale (fun draft locale => { draft with locale := some locale })
      (Locale.read levels),
    .of "failureMode" false Draft.failureMode (fun draft mode => { draft with failureMode := some mode })
      (readChoice FailureMode.choices levels)]
  start := {}
  finish draft := .ok {
    platform := draft.platform.getD .generic
    locale := draft.locale.getD .enUS
    failureMode := draft.failureMode.getD .block }

def read (levels : Nat) : Reader Config :=
  Record.readOver "CheckConfig" (within record levels)

def parse (text : String) : Except ReadError Config :=
  readAll (read maxLevels) text

end Config

end SpeechMarkup
