import SpeechMarkup.Quantity.Signed
import SpeechMarkup.Text.Characters

/-! The number that a text begins with, and its place in a range. What follows the number plays no part, so that a
usable number can be saved from a text that is no quantity. -/

namespace SpeechMarkup

namespace Leading

def fraction : List Char → List Char × List Char
  | '.' :: rest =>
    let digits := rest.takeWhile Char.isDigit
    if digits.isEmpty then ([], '.' :: rest) else (digits, rest.dropWhile Char.isDigit)
  | rest => ([], rest)

/-- The exponent at the front: `e` or `E`, a sign perhaps, and digits. Anything else is exponent `0`. -/
def exponent : List Char → Int
  | c :: rest =>
    if c = 'e' || c = 'E' then
      let (sign, rest) := Sign.read rest
      let size : Int := Decimal.ofDigits (rest.takeWhile Char.isDigit)
      if sign = some .minus then -size else size
    else 0
  | [] => 0

/-- The number at the front, after blanks: a sign perhaps, digits before or after a point, and an exponent
perhaps. -/
def number? (cs : List Char) : Option Binary64 :=
  let (sign, rest) := Sign.read (cs.dropWhile Text.isBlank)
  let whole := rest.takeWhile Char.isDigit
  let (fraction, rest) := fraction (rest.dropWhile Char.isDigit)
  if whole.isEmpty && fraction.isEmpty then none
  else some (((Decimal.ofPlaces whole fraction).shift (exponent rest)).toBinary64 (sign = some .minus))

end Leading

structure NumberRange where
  least : Binary64
  greatest : Binary64
  fallback : Binary64
deriving DecidableEq

structure Bounded where
  inRange : Bool
  value : Binary64
deriving DecidableEq

/-- The number at the front of the text, moved to the nearer end where it lies outside the range. -/
def NumberRange.judge (range : NumberRange) (text : String) : Bounded :=
  match Leading.number? text.toList with
  | none => ⟨false, range.fallback⟩
  | some x =>
    if x.lt range.least then ⟨false, range.least⟩
    else if range.greatest.lt x then ⟨false, range.greatest⟩
    else ⟨true, x⟩

end SpeechMarkup
