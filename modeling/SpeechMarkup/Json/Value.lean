import SpeechMarkup.Number.Shortest

/-! JSON values. Numbers keep apart what is an integer of 64 bits, with or without a sign, and what is not. -/

namespace SpeechMarkup.Json

inductive Number where
  | integer (value : Int)
  | float (value : Binary64)
deriving DecidableEq

/-- The members of an object stand in the order of the text, repeated names included. -/
inductive Value where
  | null
  | bool (value : Bool)
  | number (value : Number)
  | string (value : String)
  | array (items : List Value)
  | object (members : List (String × Value))

namespace Number

/-- The digits of a float: places and point where the leading digit stands from five places after the point to
sixteen before it, a power of ten elsewhere. A whole number ends in `.0`. -/
def floatDigits (x : Decimal) : List Char :=
  let digits := Decimal.digits x.significand
  let leading : Int := digits.length - 1 + x.exponent
  if -5 ≤ leading && leading < 16 then
    if x.exponent < 0 then x.positional else x.positional ++ ['.', '0']
  else
    let mantissa := match digits with
      | d :: e :: rest => d :: '.' :: e :: rest
      | digits => digits
    let sign := if leading < 0 then '-' else '+'
    mantissa ++ 'e' :: sign :: Decimal.digits leading.natAbs

def magnitudeText (m : Magnitude) : List Char :=
  if m = .zero then ['0', '.', '0'] else floatDigits (m.shortest .toEven)

/-- The text of a number. JSON has none for what is not a finite number; it is written `null`. -/
def text : Number → List Char
  | integer (.ofNat n) => Decimal.digits n
  | integer (.negSucc n) => '-' :: Decimal.digits (n + 1)
  | float .nan => ['n', 'u', 'l', 'l']
  | float (.signed negative m) =>
    if m = .infinity then ['n', 'u', 'l', 'l']
    else if negative then '-' :: magnitudeText m else magnitudeText m

end Number

end SpeechMarkup.Json
