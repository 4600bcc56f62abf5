import SpeechMarkup.Json.NumberText
import SpeechMarkup.Json.Text

/-! Values of any form. Reading one nests as deep as the levels that are left allow; passing over one, where its
content does not matter, nests as deep as the text does. -/

namespace SpeechMarkup.Json

def maxLevels : Nat := 127

/-- Reads a scalar, or the bracket that opens an array or an object. -/
def Head.read : Reader Head := fun text =>
  match skipSpace text with
  | [] => .error .endOfValue
  | c :: rest =>
    if c = 'n' then (word ['u', 'l', 'l'] rest).map fun rest => (.null, rest)
    else if c = 't' then (word ['r', 'u', 'e'] rest).map fun rest => (.bool true, rest)
    else if c = 'f' then (word ['a', 'l', 's', 'e'] rest).map fun rest => (.bool false, rest)
    else if c = '"' then (stringBody rest).map fun (s, rest) => (.string s, rest)
    else if c = '[' then .ok (.array, rest)
    else if c = '{' then .ok (.object, rest)
    else if c = '-' || c.isDigit then (NumberText.read (c :: rest)).map fun (n, rest) => (.number n, rest)
    else .error .expectedValue

def members {α : Type} (value : Reader α) : Reader (List (String × α)) := fun text => do
  let round : Bool × List (String × α) → Reader (Round (Bool × List (String × α)) (List (String × α))) :=
    fun (first, before) text => do
      let (more, rest) ← nextName first text
      if more then
        let (name, rest) ← stringBody rest
        let (x, rest) ← value (← colon rest)
        return (.again (false, (name, x) :: before), rest)
      else return (.done before.reverse, rest)
  loop round (true, []) text

namespace Value

/-- Reads a value whose arrays and objects hold values that `inside` reads; none where no level is left. -/
def readOver (inside : Option (Reader Value)) : Reader Value := fun text => do
  match ← Head.read text, inside with
  | (.null, rest), _ => return (null, rest)
  | (.bool b, rest), _ => return (bool b, rest)
  | (.number n, rest), _ => return (number n, rest)
  | (.string s, rest), _ => return (string s, rest)
  | (.array, _), none => .error .recursionLimit
  | (.object, _), none => .error .recursionLimit
  | (.array, rest), some value => return (← items value rest).map array id
  | (.object, rest), some value => return (← members value rest).map object id

def read : (levels : Nat) → Reader Value
  | 0 => readOver none
  | levels + 1 => readOver (some (read levels))

end Value

inductive Frame where
  | array
  | object
deriving DecidableEq

/-- What comes next while a value is passed over, with the frames around that place from the inside out. -/
inductive Pass where
  | value (frames : List Frame)
  | closing (frames : List Frame)

namespace Pass

def member (text : List Char) : Except ReadError (List Char) :=
  match skipSpace text with
  | [] => .error .endOfObject
  | c :: rest => if c = '"' then do colon (← passString rest) else .error .keyNotString

def enter (frames : List Frame) : Reader (Round Pass Unit) := fun text =>
  match frames with
  | .object :: _ => (member text).map fun rest => (.again (.value frames), rest)
  | _ => .ok (.again (.value frames), text)

def opened (frame : Frame) (frames : List Frame) : Reader (Round Pass Unit) := fun text =>
  match frame, skipSpace text with
  | .array, [] => .error .endOfList
  | .object, [] => .error .endOfObject
  | .array, ']' :: rest => .ok (.again (.closing frames), rest)
  | .object, '}' :: rest => .ok (.again (.closing frames), rest)
  | frame, text => enter (frame :: frames) text

def atValue (frames : List Frame) : Reader (Round Pass Unit) := fun text =>
  let scalar : Except ReadError (List Char) → Except ReadError (Round Pass Unit × List Char) :=
    Except.map fun rest => (.again (.closing frames), rest)
  match skipSpace text with
  | [] => .error .endOfValue
  | c :: rest =>
    if c = 'n' then scalar (word ['u', 'l', 'l'] rest)
    else if c = 't' then scalar (word ['r', 'u', 'e'] rest)
    else if c = 'f' then scalar (word ['a', 'l', 's', 'e'] rest)
    else if c = '"' then scalar (passString rest)
    else if c = '-' || c.isDigit then scalar ((NumberText.scan .invalidNumber (c :: rest)).map Prod.snd)
    else if c = '[' then opened .array frames rest
    else if c = '{' then opened .object frames rest
    else .error .expectedValue

def atClosing (frames : List Frame) : Reader (Round Pass Unit) := fun text =>
  match frames with
  | [] => .ok (.done (), text)
  | .array :: outer =>
    match skipSpace text with
    | [] => .error .endOfList
    | c :: rest =>
      if c = ',' then enter frames rest
      else if c = ']' then .ok (.again (.closing outer), rest)
      else .error .expectedCommaOrBracket
  | .object :: outer =>
    match skipSpace text with
    | [] => .error .endOfObject
    | c :: rest =>
      if c = ',' then enter frames rest
      else if c = '}' then .ok (.again (.closing outer), rest)
      else .error .expectedCommaOrBrace

end Pass

/-- Passes over a value of any form and depth. -/
def passValue (text : List Char) : Except ReadError (List Char) := do
  let round : Pass → Reader (Round Pass Unit)
    | .value frames => Pass.atValue frames
    | .closing frames => Pass.atClosing frames
  let (_, rest) ← loop round (.value []) text
  return rest

end SpeechMarkup.Json
