import SpeechMarkup.Dictionary
import SpeechMarkup.Json.Record

/-! Values in memory: putting their members in order, and taking strings, lists and choices out of them. -/

namespace SpeechMarkup.Json.Value

mutual

/-- The value with the members of every object in the order of their names; of equal names the last counts. -/
def sorted : Value → Value
  | array items => array (sortedItems items)
  | object members => object (sortedMembers [] members)
  | null => null
  | bool b => bool b
  | number n => number n
  | string s => string s

def sortedItems : List Value → List Value
  | [] => []
  | x :: rest => sorted x :: sortedItems rest

def sortedMembers (before : List (String × Value)) : List (String × Value) → List (String × Value)
  | [] => before
  | (name, x) :: rest => sortedMembers (insertEntry name (sorted x) before) rest

end

def asString : Value → Except ReadError String
  | string s => .ok s
  | v => refuse v.head "a string"

def asOptional {α : Type} (value : Value → Except ReadError α) : Value → Except ReadError (Option α)
  | null => .ok none
  | v => (value v).map some

/-- One of a table of names: the name, or an object whose only member has the name and the value `null`. -/
def asChoice {α : Type} (choices : List (String × α)) : Value → Except ReadError α
  | string name => choose choices name
  | object [(name, content)] => do
    let x ← choose choices name
    if content.head = .null then return x else refuse content.head "unit"
  | object members => .error (.invalidValue (object members).head "map with a single key")
  | v => refuse v.head "string or map"

end SpeechMarkup.Json.Value
