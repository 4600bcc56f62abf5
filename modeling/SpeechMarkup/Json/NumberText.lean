import SpeechMarkup.Json.Reader

/-! Numbers of JSON text. A number without point and exponent is an integer where 64 bits hold it; every other one
becomes a float, by one multiplication or division from the digits that fit into 64 bits. -/

namespace SpeechMarkup.Json

structure NumberText where
  negative : Bool
  whole : List Char
  fraction : Option (List Char)
  exponent : Option (Bool × List Char)
deriving DecidableEq

namespace NumberText

/-- Takes one or more digits off the front. A text that ends where a digit must stand is refused with `atEnd`. -/
def digits (atEnd : ReadError) : Reader (List Char) := fun text =>
  match text with
  | [] => .error atEnd
  | c :: rest =>
    if c.isDigit then .ok (c :: rest.takeWhile Char.isDigit, rest.dropWhile Char.isDigit)
    else .error .invalidNumber

/-- The digits before the point: nothing follows a zero at the front. -/
def wholeDigits (atEnd : ReadError) : Reader (List Char) := fun text => do
  let (whole, rest) ← digits atEnd text
  if whole.head? = some '0' && whole.length ≠ 1 then .error .invalidNumber else return (whole, rest)

def fractionDigits (atEnd : ReadError) : Reader (Option (List Char)) := fun text =>
  match text with
  | '.' :: rest => (digits atEnd rest).map fun (fraction, rest) => (some fraction, rest)
  | text => .ok (none, text)

def exponentDigits (atEnd : ReadError) : Reader (Option (Bool × List Char)) := fun text =>
  match text with
  | c :: rest =>
    if c = 'e' || c = 'E' then do
      let (negative, rest) := match rest with
        | '-' :: rest => (true, rest)
        | '+' :: rest => (false, rest)
        | rest => (false, rest)
      let (exponent, rest) ← digits atEnd rest
      return (some (negative, exponent), rest)
    else .ok (none, text)
  | [] => .ok (none, [])

def scan (atEnd : ReadError) : Reader NumberText := fun text => do
  let (negative, rest) := match text with
    | '-' :: rest => (true, rest)
    | rest => (false, rest)
  let (whole, rest) ← wholeDigits atEnd rest
  let (fraction, rest) ← fractionDigits atEnd rest
  let (exponent, rest) ← exponentDigits atEnd rest
  return (⟨negative, whole, fraction, exponent⟩, rest)

def mostSignificant : Nat := UInt64.size - 1

/-- Appends digits to a significand until the next one would make it too large; gives back those left over. -/
def gather (significand : Nat) : List Char → Nat × List Char
  | [] => (significand, [])
  | c :: cs =>
    let next := 10 * significand + (c.toNat - '0'.toNat)
    if mostSignificant < next then (significand, c :: cs) else gather next cs

def writtenExponent (n : NumberText) : Int :=
  match n.exponent with
  | none => 0
  | some (negative, digits) => if negative then -Decimal.ofDigits digits else Decimal.ofDigits digits

def parts (n : NumberText) : Decimal :=
  let (significand, left) := gather 0 n.whole
  let fraction := n.fraction.getD []
  let (significand, unread) := gather significand fraction
  ⟨significand, left.length - (fraction.length - unread.length) + n.writtenExponent⟩

def largestStep : Nat := 308

def powerOfTen (n : Nat) : Magnitude :=
  .ofNat (Decimal.tenTo n)

/-- The float of these parts. Two divisions take any significand to zero, so that a third is never called for. -/
def magnitude (x : Decimal) : Except ReadError Magnitude :=
  let m := Magnitude.ofNat x.significand
  match x.exponent with
  | .ofNat places =>
    if m = .zero then .ok .zero
    else if largestStep < places then .error .numberOutOfRange
    else
      let product := m.mul (powerOfTen places)
      if product = .infinity then .error .numberOutOfRange else .ok product
  | .negSucc places =>
    let first := min (places + 1) largestStep
    let second := min (places + 1 - first) largestStep
    .ok ((m.div (powerOfTen first)).div (powerOfTen second))

/-- The integer that a number without point and exponent is: none for `-0`, nor where 64 bits do not hold it. -/
def integer? (n : NumberText) : Option Int :=
  let value := Decimal.ofDigits n.whole
  if n.fraction.isSome || n.exponent.isSome then none
  else if n.negative then
    if value = 0 || Binary64.signBit < value then none else some (-value)
  else if mostSignificant < value then none else some value

def value (n : NumberText) : Except ReadError Number :=
  match n.integer? with
  | some i => .ok (.integer i)
  | none => (magnitude n.parts).map fun m => .float (.signed n.negative m)

def read : Reader Number := fun text => do
  let (numeral, rest) ← scan .endOfValue text
  return (← numeral.value, rest)

end NumberText

end SpeechMarkup.Json
