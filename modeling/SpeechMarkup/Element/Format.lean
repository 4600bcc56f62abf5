import SpeechMarkup.Element
import SpeechMarkup.Json.Decode
import SpeechMarkup.Json.Printer

/-! The JSON form of elements: an object with the members `type`, `name`, `attributes`, `elements` and `text`, of
which those are left out that hold nothing. -/

namespace SpeechMarkup

open Json

def Attributes.textOf : Value → Option String
  | .string s => some s
  | .number n => some (String.ofList n.text)
  | .bool true => some "true"
  | .bool false => some "false"
  | .null | .array _ | .object _ => none

/-- The attributes in a value of any form. The last of several members with one name counts, and counts as none
where its value has no text; what is no object holds no attributes. -/
def Attributes.ofValue : Value → Attributes
  | .object members => members.foldl (fun attributes (name, value) =>
      match textOf value with
      | some text => attributes.insert name text
      | none => attributes.erase name) .empty
  | _ => .empty

def Attributes.toValue (attributes : Attributes) : Value :=
  .object (attributes.entries.map fun (name, text) => (name, .string text))

namespace Element

mutual

def toValue : Element → Value
  | ⟨kind, name, attributes, children, text⟩ =>
    .object (
      (match kind with
        | none => []
        | some kind => [("type", .string kind.name)])
      ++ (if name = "" then [] else [("name", .string name)])
      ++ (if attributes.isEmpty then [] else [("attributes", attributes.toValue)])
      ++ (match children with
        | none => []
        | some children => [("elements", .array (toValues children))])
      ++ (match text with
        | none => []
        | some text => [("text", .string text)]))

def toValues : List Element → List Value
  | [] => []
  | e :: rest => toValue e :: toValues rest

end

structure Draft where
  kind : Option (Option NodeKind) := none
  name : Option String := none
  attributes : Option Attributes := none
  children : Option (Option (List Element)) := none
  text : Option (Option String) := none

def Draft.element (draft : Draft) : Element where
  kind := draft.kind.getD none
  name := draft.name.getD ""
  attributes := draft.attributes.getD .empty
  children := draft.children.getD none
  text := draft.text.getD none

def kindChoices : List (String × NodeKind) :=
  NodeKind.all.map fun kind => (kind.name, kind)

/-- The fields of an element inside which so many levels are left, with the reader of its children; none where no
level is left for their list. -/
def record (levels : Nat) (child : Option (Reader Element)) : Record Draft Element where
  fields := [
    .of "type" false Draft.kind (fun draft kind => { draft with kind := some kind })
      (readOptional (readChoice kindChoices levels)),
    .of "name" false Draft.name (fun draft name => { draft with name := some name }) readString,
    .of "attributes" false Draft.attributes (fun draft attributes => { draft with attributes := some attributes })
      (fun text => (Value.read levels text).map fun (value, rest) => (Attributes.ofValue value, rest)),
    .of "elements" false Draft.children (fun draft children => { draft with children := some children })
      (readOptional (readList child)),
    .of "text" false Draft.text (fun draft text => { draft with text := some text }) (readOptional readString)]
  start := {}
  finish draft := .ok draft.element

/-- Reads an element with at most so many arrays and objects inside each other: one for the element itself, and one
more for the list of its children. -/
def read : (levels : Nat) → Reader Element
  | 0 => Record.readOver "Element" (none : Option (Record Draft Element))
  | 1 => Record.readOver "Element" (some (record 0 none))
  | levels + 2 => Record.readOver "Element" (some (record (levels + 1) (some (read levels))))

def parse (text : String) : Except ReadError Element :=
  readAll (read maxLevels) text

def fieldNames : List String := ["type", "name", "attributes", "elements", "text"]

mutual

def ofSorted : Value → Except ReadError Element
  | .object members => (ofMembers {} members).map Draft.element
  | .array items => (ofItems {} items.length fieldNames items).map Draft.element
  | v => refuse v.head "struct Element"

def ofSortedItems : List Value → Except ReadError (List Element)
  | [] => .ok []
  | v :: rest => do
    let e ← ofSorted v
    return e :: (← ofSortedItems rest)

def ofMembers (draft : Draft) : List (String × Value) → Except ReadError Draft
  | [] => .ok draft
  | (name, v) :: rest => do ofMembers (← ofMember draft name v) rest

/-- Fields by their places; more items than fields are refused. -/
def ofItems (draft : Draft) (length : Nat) : List String → List Value → Except ReadError Draft
  | _, [] => .ok draft
  | [], _ :: _ => .error (.invalidLength length "fewer elements in array")
  | name :: names, v :: rest => do ofItems (← ofMember draft name v) length names rest

def ofMember (draft : Draft) (name : String) (v : Value) : Except ReadError Draft :=
  if name = "type" then
    (v.asOptional (Value.asChoice kindChoices)).map fun kind => { draft with kind := some kind }
  else if name = "name" then
    v.asString.map fun name => { draft with name := some name }
  else if name = "attributes" then
    .ok { draft with attributes := some (Attributes.ofValue v) }
  else if name = "elements" then
    match v with
    | .null => .ok { draft with children := some none }
    | .array items => (ofSortedItems items).map fun children => { draft with children := some (some children) }
    | v => refuse v.head "a sequence"
  else if name = "text" then
    (v.asOptional Value.asString).map fun text => { draft with text := some text }
  else .ok draft

end

def ofValue (v : Value) : Except ReadError Element :=
  ofSorted v.sorted

end Element

end SpeechMarkup
