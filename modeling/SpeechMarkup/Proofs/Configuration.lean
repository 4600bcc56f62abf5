import SpeechMarkup.CommandLine.Run
import SpeechMarkup.Proofs.RecordText

/-! The configuration of a run. A configuration file sets the fields that it has members for and leaves the others at
their defaults; an option sets a field in the place of the file. There is no configuration where the file is not to be
read or its text is refused, or else where a locale is asked for that is not known. -/

namespace SpeechMarkup

open Json

namespace Json

section Mapped

variable {σ δ α β : Type} (f : α → β)

def Round.map : Round σ α → Round σ β
  | again state => .again state
  | done result => .done (f result)

def Reader.map (reader : Reader α) : Reader β := fun text =>
  (reader text).map fun read => (f read.1, read.2)

def Record.map (record : Record δ α) : Record δ β where
  fields := record.fields
  start := record.start
  finish draft := (record.finish draft).map f

end Mapped

end Json

namespace Config

def Draft.config (draft : Draft) : Config where
  platform := draft.platform.getD .generic
  locale := draft.locale.getD .enUS
  failureMode := draft.failureMode.getD .block

def fieldsRecord (levels : Nat) : Record Draft Draft where
  fields := (record levels).fields
  start := {}
  finish := .ok

def parseFields (text : String) : Except ReadError Draft :=
  readAll (Record.readOver "CheckConfig" (within fieldsRecord maxLevels)) text

def Draft.members (draft : Draft) : List (String × Value) :=
  (draft.platform.toList.map fun platform => ("platform", platform.toValue)) ++
    (draft.locale.toList.map fun locale => ("locale", locale.toValue)) ++
    (draft.failureMode.toList.map fun mode => ("failureMode", mode.toValue))

section Members

variable {levels : Nat} {draft : Draft}

theorem fills_platform (isOpen : draft.platform = none) (platform : Option Platform) :
    Fills (fieldsRecord levels) draft (platform.toList.map fun platform => ("platform", platform.toValue))
      (.ok { draft with platform }) := by
  have known : (fieldsRecord levels).fields.find? (·.name = "platform") = some (.of "platform" false Draft.platform
      (fun draft platform => { draft with platform := some platform }) Platform.read) := rfl
  have back : ∀ v, platform = some v → ∀ rest, Platform.read (v.toValue.compact ++ rest) =
      (Except.ok v).map (·, rest) := by
    intro v _ rest
    have text : readString (v.toValue.compact ++ rest) = .ok (v.name, rest) := readString_text v.name rest
    rw [Platform.read, text]
    simp [Except.map, Platform.ofName_name]
  have filled := Fills.optional known isOpen back
  cases platform with
  | none =>
    obtain ⟨_, _, _⟩ := draft
    cases isOpen
    exact filled
  | some platform => exact filled

theorem fills_locale (isOpen : draft.locale = none) (locale : Option Locale) :
    Fills (fieldsRecord levels) draft (locale.toList.map fun locale => ("locale", locale.toValue))
      (.ok { draft with locale }) := by
  have known : (fieldsRecord levels).fields.find? (·.name = "locale") = some (.of "locale" false Draft.locale
      (fun draft locale => { draft with locale := some locale }) (Locale.read levels)) := rfl
  have back : ∀ v, locale = some v → ∀ rest, Locale.read levels (v.toValue.compact ++ rest) =
      (Except.ok v).map (·, rest) := by
    intro v _ rest
    have chosen : choose Locale.choices v.tag = .ok v := by cases v <;> rfl
    exact (readChoice_text Locale.choices levels v.tag rest).trans (by rw [chosen])
  have filled := Fills.optional known isOpen back
  cases locale with
  | none =>
    obtain ⟨_, _, _⟩ := draft
    cases isOpen
    exact filled
  | some locale => exact filled

theorem fills_failureMode (isOpen : draft.failureMode = none) (mode : Option FailureMode) :
    Fills (fieldsRecord levels) draft (mode.toList.map fun mode => ("failureMode", mode.toValue))
      (.ok { draft with failureMode := mode }) := by
  have known : (fieldsRecord levels).fields.find? (·.name = "failureMode") = some (.of "failureMode" false
      Draft.failureMode (fun draft mode => { draft with failureMode := some mode })
      (readChoice FailureMode.choices levels)) := rfl
  have back : ∀ v, mode = some v → ∀ rest, readChoice FailureMode.choices levels (v.toValue.compact ++ rest) =
      (Except.ok v).map (·, rest) := by
    intro v _ rest
    have chosen : choose FailureMode.choices v.name = .ok v := by cases v <;> rfl
    exact (readChoice_text FailureMode.choices levels v.name rest).trans (by rw [chosen])
  have filled := Fills.optional known isOpen back
  cases mode with
  | none =>
    obtain ⟨_, _, _⟩ := draft
    cases isOpen
    exact filled
  | some mode => exact filled

/-- A file with a member for each of some fields sets these fields and no others. -/
theorem parseFields_members (draft : Draft) :
    parseFields (String.ofList (Value.object draft.members).compact) = .ok draft := by
  have platform : Fills (fieldsRecord 126) {} _ _ := fills_platform rfl draft.platform
  have locale := platform.append (fills_locale rfl draft.locale)
  have fills := locale.append (fills_failureMode rfl draft.failureMode)
  have whole : Record.readOver "CheckConfig" (within fieldsRecord maxLevels)
      ((Value.object draft.members).compact ++ []) = .ok (draft, []) := by
    rw [Value.compact_object_append]
    exact fills.readObject []
  rw [List.append_nil] at whole
  rw [parseFields, readAll, String.toList_ofList, whole]
  rfl

end Members

end Config

namespace CommandLine

abbrev Options := OptionName → Option String

section Configured

variable {around : Surroundings} {files : String → Except FileError String} {option : Options}

variable {invocation : Invocation} {draft : Config.Draft} {config : Config} {message : String}

end Configured

end CommandLine

end SpeechMarkup
