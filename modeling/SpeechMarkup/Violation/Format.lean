import SpeechMarkup.Json.Printer
import SpeechMarkup.Json.Record
import SpeechMarkup.Violation

/-! The JSON form of records: an object with the members `type`, `tag`, `attribute` and `value`, of which the last
two may be left out. The type is always that of a tag's record. -/

namespace SpeechMarkup.Violation

open Json

def typeName : String := "tag"

def toValue (v : Violation) : Value :=
  .object (
    [("type", .string typeName), ("tag", .string v.tag)]
    ++ (match v.attr with
      | none => []
      | some attr => [("attribute", .string attr)])
    ++ (match v.value with
      | none => []
      | some value => [("value", .string value)]))

structure Draft where
  type : Option Unit := none
  tag : Option String := none
  attr : Option (Option String) := none
  value : Option (Option String) := none

def record (levels : Nat) : Record Draft Violation where
  fields := [
    .of "type" true Draft.type (fun draft type => { draft with type := some type })
      (readChoice [(typeName, ())] levels),
    .of "tag" true Draft.tag (fun draft tag => { draft with tag := some tag }) readString,
    .of "attribute" false Draft.attr (fun draft attr => { draft with attr := some attr }) (readOptional readString),
    .of "value" false Draft.value (fun draft value => { draft with value := some value }) (readOptional readString)]
  start := {}
  finish draft := do
    let _ ← Field.get "type" draft.type
    let tag ← Field.get "tag" draft.tag
    return ⟨tag, draft.attr.getD none, draft.value.getD none⟩

def read (levels : Nat) : Reader Violation :=
  Record.readOver "Violation" (within record levels)

def parse (text : String) : Except ReadError Violation :=
  readAll (read maxLevels) text

end SpeechMarkup.Violation
