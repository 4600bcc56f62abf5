import SpeechMarkup.Json.Any

/-! Readers of JSON text for values of a known form: strings, lists, choices, and records. A record is read from an
object, whose unknown members are passed over, or from an array of its fields in their order. -/

namespace SpeechMarkup.Json

def refuse {α : Type} (found : Head) (expected : String) : Except ReadError α :=
  .error (.invalidType found expected)

def readString : Reader String := fun text => do
  match ← Head.read text with
  | (.string s, rest) => return (s, rest)
  | (found, _) => refuse found "a string"

def readBool : Reader Bool := fun text => do
  match ← Head.read text with
  | (.bool b, rest) => return (b, rest)
  | (found, _) => refuse found "a boolean"

def readOptional {α : Type} (value : Reader α) : Reader (Option α) := fun text =>
  match skipSpace text with
  | 'n' :: rest => (word ['u', 'l', 'l'] rest).map fun rest => (none, rest)
  | _ => (value text).map fun (x, rest) => (some x, rest)

def within {α : Type} (inside : Nat → α) : (levels : Nat) → Option α
  | 0 => none
  | levels + 1 => some (inside levels)

def readList {α : Type} (inside : Option (Reader α)) : Reader (List α) := fun text => do
  match ← Head.read text, inside with
  | (.array, _), none => .error .recursionLimit
  | (.array, rest), some item => items item rest
  | (found, _), _ => refuse found "a sequence"

def choose {α : Type} (choices : List (String × α)) (name : String) : Except ReadError α :=
  match choices.find? (·.1 = name) with
  | some (_, x) => .ok x
  | none => .error (.unknownVariant name (choices.map Prod.fst))

/-- One of a table of names: the name, or an object whose only member has the name and the value `null`. -/
def readChoice {α : Type} (choices : List (String × α)) (levels : Nat) : Reader α := fun text =>
  match skipSpace text with
  | [] => .error .endOfValue
  | c :: rest =>
    if c = '"' then do
      let (name, rest) ← stringBody rest
      return (← choose choices name, rest)
    else if c = '{' then
      if levels = 0 then .error .recursionLimit else do
      let (named, rest) ← nextName true rest
      if !named then .error .expectedValue else do
      let (name, rest) ← stringBody rest
      let x ← choose choices name
      let (content, rest) ← Head.read (← colon rest)
      if content ≠ .null then refuse content "unit" else
      match skipSpace rest with
      | [] => .error .endOfObject
      | c :: rest => if c = '}' then return (x, rest) else .error .expectedValue
    else .error .expectedValue

structure Field (δ : Type) where
  name : String
  required : Bool
  isSet : δ → Bool
  read : δ → Reader δ

def Field.of {δ β : Type} (name : String) (required : Bool) (get : δ → Option β) (set : δ → β → δ)
    (value : Reader β) : Field δ where
  name := name
  required := required
  isSet draft := (get draft).isSome
  read draft text := (value text).map fun (x, rest) => (set draft x, rest)

def Field.get {β : Type} (name : String) : Option β → Except ReadError β
  | some x => .ok x
  | none => .error (.missingField name)

/-- A record: the fields in their order, the draft at the start, and the record that a draft amounts to. -/
structure Record (δ α : Type) where
  fields : List (Field δ)
  start : δ
  finish : δ → Except ReadError α

namespace Record

variable {δ α : Type}

def readObject (record : Record δ α) : Reader α := fun text => do
  let round : Bool × δ → Reader (Round (Bool × δ) α) := fun (first, draft) text => do
    let (more, rest) ← nextName first text
    if more then
      let (name, rest) ← stringBody rest
      match record.fields.find? (·.name = name) with
      | none => return (.again (false, draft), ← passValue (← colon rest))
      | some field =>
        if field.isSet draft then .error (.duplicateField name)
        else
          let (draft, rest) ← field.read draft (← colon rest)
          return (.again (false, draft), rest)
    else return (.done (← record.finish draft), rest)
  loop round (true, record.start) text

/-- Reads items into fields one by one. Items may be missing at the end, unless a required field is among them. -/
def readFields (expected : String) : List (Field δ) → (index : Nat) → δ → Reader δ
  | [], _, draft => fun text => .ok (draft, text)
  | field :: fields, index, draft => fun text => do
    let (more, rest) ← nextItem (index = 0) text
    if more then
      let (draft, rest) ← field.read draft rest
      readFields expected fields (index + 1) draft rest
    else match (field :: fields).findIdx? (·.required) with
      | none => return (draft, rest)
      | some further => .error (.invalidLength (index + further) expected)

def readArray (record : Record δ α) (title : String) : Reader α := fun text => do
  let expected := s!"struct {title} with {record.fields.length} elements"
  let (draft, rest) ← readFields expected record.fields 0 record.start text
  let x ← record.finish draft
  return (x, ← closeArray rest)

def readOver (title : String) (inside : Option (Record δ α)) : Reader α := fun text => do
  match ← Head.read text, inside with
  | (.array, _), none => .error .recursionLimit
  | (.object, _), none => .error .recursionLimit
  | (.array, rest), some record => record.readArray title rest
  | (.object, rest), some record => record.readObject rest
  | (found, _), _ => refuse found ("struct " ++ title)

end Record

end SpeechMarkup.Json
