import SpeechMarkup.Number.Binary64

/-! Decimals: a whole number times a power of ten. They are read from digits, rounded to a magnitude, and
written out place by place. -/

namespace SpeechMarkup

/-- The number `significand * 10 ^ exponent`. -/
structure Decimal where
  significand : Nat
  exponent : Int
deriving DecidableEq

namespace Decimal

def ofDigits (digits : List Char) : Nat :=
  Nat.ofDigitChars 10 digits 0

def ofPlaces (whole fraction : List Char) : Decimal :=
  ⟨ofDigits (whole ++ fraction), -fraction.length⟩

def tenTo (places : Nat) : Nat :=
  Nat.pow 10 places

theorem tenTo_pos (places : Nat) : 0 < tenTo places :=
  Nat.pow_pos (by decide)

theorem tenTo_add (a b : Nat) : tenTo (a + b) = tenTo a * tenTo b :=
  Nat.pow_add 10 a b

def shift (x : Decimal) (places : Int) : Decimal :=
  ⟨x.significand, x.exponent + places⟩

/-- The nearest magnitude. Exponents that lie far beyond the row of magnitudes are answered at once: every
magnitude but infinity is below `10 ^ 400`, and what is below `10 ^ -400` is nearest to zero. -/
def toMagnitude (x : Decimal) : Magnitude :=
  if x.significand = 0 then .zero
  else match x.exponent with
    | .ofNat places =>
      if 400 < places then .infinity
      else .nearest (x.significand * tenTo places * Magnitude.unitsPerOne) 1
    | .negSucc places =>
      if 400 + x.significand.log2 < places then .zero
      else .nearest (x.significand * Magnitude.unitsPerOne) (tenTo (places + 1))

def toBinary64 (x : Decimal) (negative : Bool) : Binary64 :=
  .signed negative x.toMagnitude

def digits (n : Nat) : List Char :=
  Nat.toDigits 10 n

theorem ofDigits_digits (n : Nat) : ofDigits (digits n) = n :=
  Nat.ofDigitChars_ten_toDigits

/-- Digits with a point before the last `places` of them, filled up with zeros to one digit before the point. -/
def withPoint (places : Nat) (digits : List Char) : List Char :=
  let digits := List.replicate (places + 1 - digits.length) '0' ++ digits
  let whole := digits.length - places
  digits.take whole ++ '.' :: digits.drop whole

def positional (x : Decimal) : List Char :=
  match x.exponent with
  | .ofNat zeros => digits x.significand ++ List.replicate zeros '0'
  | .negSucc places => withPoint (places + 1) (digits x.significand)

end Decimal

end SpeechMarkup
