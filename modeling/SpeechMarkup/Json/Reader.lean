import SpeechMarkup.Json.Error

/-! Readers of JSON text: what they have in common. A reader takes a value off the front of a text and gives the
rest back. -/

namespace SpeechMarkup.Json

abbrev Reader (α : Type) := List Char → Except ReadError (α × List Char)

inductive Round (σ α : Type) where
  | again (state : σ)
  | done (result : α)

/-- Runs rounds until one is done. A round that asks for another takes a character off the text at least, so that
as many rounds as `bound` has characters are enough when `bound` is the text at the start. -/
def rounds {σ α : Type} (round : σ → Reader (Round σ α)) (bound : List Char) (state : σ) : Reader α :=
  fun text =>
    match round state text with
    | .error e => .error e
    | .ok (.done result, rest) => .ok (result, rest)
    | .ok (.again next, rest) =>
      match bound with
      | [] => .error .endOfValue
      | _ :: bound => rounds round bound next rest

def loop {σ α : Type} (round : σ → Reader (Round σ α)) (state : σ) : Reader α :=
  fun text => rounds round text state text

def isSpace (c : Char) : Bool :=
  c = ' ' || c = '\t' || c = '\n' || c = '\r'

def skipSpace (text : List Char) : List Char :=
  text.dropWhile isSpace

def word : List Char → List Char → Except ReadError (List Char)
  | [], rest => .ok rest
  | _ :: _, [] => .error .endOfValue
  | c :: cs, d :: rest => if c = d then word cs rest else .error .expectedIdent

def colon (text : List Char) : Except ReadError (List Char) :=
  match skipSpace text with
  | [] => .error .endOfObject
  | c :: rest => if c = ':' then .ok rest else .error .expectedColon

/-- Goes on to the next item of an array, over the comma before it, or stops before the closing bracket. -/
def nextItem (first : Bool) : Reader Bool := fun text =>
  match skipSpace text with
  | [] => .error .endOfList
  | c :: rest =>
    if c = ']' then .ok (false, c :: rest)
    else if first then .ok (true, c :: rest)
    else if c = ',' then
      match skipSpace rest with
      | [] => .error .endOfValue
      | c :: rest => if c = ']' then .error .trailingComma else .ok (true, c :: rest)
    else .error .expectedCommaOrBracket

def closeArray (text : List Char) : Except ReadError (List Char) :=
  match skipSpace text with
  | [] => .error .endOfList
  | c :: rest =>
    if c = ']' then .ok rest
    else if c = ',' && (skipSpace rest).head? = some ']' then .error .trailingComma
    else .error .trailingCharacters

/-- Goes on to the quote that opens the next name of an object, over the comma before it, and takes the quote; or
takes the closing brace. -/
def nextName (first : Bool) : Reader Bool := fun text =>
  match skipSpace text with
  | [] => .error .endOfObject
  | c :: rest =>
    if c = '}' then .ok (false, rest)
    else if first then
      if c = '"' then .ok (true, rest) else .error .keyNotString
    else if c = ',' then
      match skipSpace rest with
      | [] => .error .endOfValue
      | c :: rest =>
        if c = '"' then .ok (true, rest)
        else if c = '}' then .error .trailingComma
        else .error .keyNotString
    else .error .expectedCommaOrBrace

def items {α : Type} (item : Reader α) : Reader (List α) := fun text => do
  let round : Bool × List α → Reader (Round (Bool × List α) (List α)) := fun (first, before) text => do
    let (more, rest) ← nextItem first text
    if more then
      let (x, rest) ← item rest
      return (.again (false, x :: before), rest)
    else return (.done before.reverse, ← closeArray rest)
  loop round (true, []) text

def readAll {α : Type} (reader : Reader α) (text : String) : Except ReadError α := do
  let (x, rest) ← reader text.toList
  if (skipSpace rest).isEmpty then return x else .error .trailingCharacters

end SpeechMarkup.Json
