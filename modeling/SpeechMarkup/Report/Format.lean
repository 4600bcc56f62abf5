import SpeechMarkup.Report
import SpeechMarkup.Config.Format
import SpeechMarkup.Violation.Format

/-! The JSON form of reports: an object with the members `valid`, `violations`, `platform` and `locale`. -/

namespace SpeechMarkup.Report

open Json

def toValue (report : Report) : Value :=
  .object [
    ("valid", .bool report.valid), ("violations", .array (report.violations.map Violation.toValue)),
    ("platform", report.platform.toValue), ("locale", report.locale.toValue)]

structure Draft where
  valid : Option Bool := none
  violations : Option (List Violation) := none
  platform : Option Platform := none
  locale : Option Locale := none

def record (levels : Nat) : Record Draft Report where
  fields := [
    .of "valid" true Draft.valid (fun draft valid => { draft with valid := some valid }) readBool,
    .of "violations" true Draft.violations (fun draft violations => { draft with violations := some violations })
      (readList (within Violation.read levels)),
    .of "platform" true Draft.platform (fun draft platform => { draft with platform := some platform })
      Platform.read,
    .of "locale" true Draft.locale (fun draft locale => { draft with locale := some locale })
      (Locale.read levels)]
  start := {}
  finish draft := do
    let valid ← Field.get "valid" draft.valid
    let violations ← Field.get "violations" draft.violations
    let platform ← Field.get "platform" draft.platform
    let locale ← Field.get "locale" draft.locale
    return { platform, locale, valid, violations }

def read (levels : Nat) : Reader Report :=
  Record.readOver "CheckReport" (within record levels)

def parse (text : String) : Except ReadError Report :=
  readAll (read maxLevels) text

end SpeechMarkup.Report
