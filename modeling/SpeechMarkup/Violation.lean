import SpeechMarkup.Text.Quoted

/-! Records of what was repaired. A record names a tag, and an attribute or a value where these are at fault. -/

namespace SpeechMarkup

structure Violation where
  tag : String
  attr : Option String
  value : Option String
deriving DecidableEq

namespace Violation

/-- Stands in the place of an attribute where a required one was missing, or the whole element was refused. -/
def noAttribute : String := "none"

/-- Stands in the place of a name where a child without a name was refused. -/
def textNode : String := "#text"

def unknownAttribute (tag attr : String) : Violation :=
  ⟨tag, some attr, none⟩

def invalidValue (tag attr value : String) : Violation :=
  ⟨tag, some attr, some value⟩

/-- A required attribute was missing, or the locale has no such element. -/
def missingRequired (tag : String) : Violation :=
  ⟨tag, some noAttribute, none⟩

def misplaced (tag : String) : Violation :=
  ⟨tag, none, none⟩

def disallowedChild (tag child : String) : Violation :=
  ⟨tag, none, some (if child = "" then textNode else child)⟩

def display (v : Violation) : String :=
  let subject := "<" ++ v.tag ++ ">: "
  match v.attr, v.value with
  | some attr, value =>
    if attr = noAttribute then subject ++ "required attribute missing or tag unsupported"
    else match value with
      | some value => subject ++ "invalid value " ++ Text.quoted value ++ " for " ++ attr
      | none => subject ++ "unsupported attribute " ++ attr
  | none, some child =>
    match child.toList with
    | '#' :: node => subject ++ String.ofList node ++ " content not allowed"
    | _ => subject ++ "child <" ++ child ++ "> not allowed"
  | none, none => subject ++ "not allowed here"

end Violation

end SpeechMarkup
