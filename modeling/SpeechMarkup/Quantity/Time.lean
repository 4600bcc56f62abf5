import SpeechMarkup.Quantity.Signed
import SpeechMarkup.Text.Characters

/-! The times at which media begin and end: a clock value, or a clock value counted from the beginning or the end of
another element, which an identifier names. And the formats in which a time is read out: fields, the clock marks `12`
and `24`, and separators. -/

namespace SpeechMarkup

def isIdentifierChar (c : Char) : Bool :=
  Text.isAlphanumeric c || c = '-' || c = '_' || c = '#'

def isIdentifier (cs : List Char) : Bool :=
  !cs.isEmpty && cs.all isIdentifierChar

inductive ClockUnit where
  | millisecond
  | minute
  | hour
  | second
deriving DecidableEq

namespace ClockUnit

def all : List ClockUnit := [millisecond, minute, hour, second]

def symbol : ClockUnit → List Char
  | millisecond => ['m', 's']
  | minute => ['m', 'i', 'n']
  | hour => ['h']
  | second => ['s']

def millis : ClockUnit → Nat
  | millisecond => 1
  | minute => 60000
  | hour => 3600000
  | second => 1000

end ClockUnit

/-- The milliseconds of `[sign]<numeral><unit>`. A text has this form with one unit at most, as none but
`ms` ends in another and no numeral ends in `m`. -/
def clockMillis? (rule : SignRule) (cs : List Char) : Option Binary64 :=
  ClockUnit.all.findSome? fun unit => (Signed.read? rule unit.symbol cs).map (·.scale unit.millis)

inductive Edge where
  | start
  | finish
deriving DecidableEq

namespace Edge

def keyword : Edge → List Char
  | start => ['b', 'e', 'g', 'i', 'n']
  | finish => ['e', 'n', 'd']

def read? (cs : List Char) : Option (Edge × List Char) :=
  [start, finish].findSome? fun edge => (edge.keyword.isPrefixOf? cs).map (edge, ·)

end Edge

inductive TimeOffset where
  | clock (millis : Binary64)
  | syncbase (id : String) (edge : Edge) (millis : Binary64)
deriving DecidableEq

namespace TimeOffset

def syncbase? (cs : List Char) : Option TimeOffset := do
  let id := cs.takeWhile (· ≠ '.')
  guard (isIdentifier id)
  let (edge, offset) ← Edge.read? (cs.dropWhile (· ≠ '.')).tail
  let millis ← clockMillis? .required offset
  return syncbase (String.ofList id) edge millis

def read? (cs : List Char) : Option TimeOffset :=
  ((clockMillis? .optional cs).map clock).or (syncbase? cs)

def parse (text : String) : Except QuantityError TimeOffset :=
  match read? text.toList with
  | some offset => .ok offset
  | none => .error (.malformed text)

end TimeOffset

def isTimeMark (c : Char) : Bool :=
  c ∈ ['h', 'm', 's', 'Z', '^', '.', '!', '?', ':', ';'] || Text.isBlank c

/-- Whether the text is a row of clock marks and time marks; it may be empty. -/
def isTimeFormat : List Char → Bool
  | [] => true
  | '1' :: '2' :: rest => isTimeFormat rest
  | '2' :: '4' :: rest => isTimeFormat rest
  | c :: rest => isTimeMark c && isTimeFormat rest

end SpeechMarkup
