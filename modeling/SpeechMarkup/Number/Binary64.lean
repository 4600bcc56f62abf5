import SpeechMarkup.Number.Magnitude

/-! Double-precision numbers: a sign and a magnitude, or no number at all. The two zeros are different values
that compare as equal. -/

namespace SpeechMarkup

inductive Binary64 where
  | nan
  | signed (negative : Bool) (magnitude : Magnitude)
deriving DecidableEq

namespace Binary64

def zero : Binary64 := .signed false .zero

def neg : Binary64 → Binary64
  | nan => nan
  | signed negative magnitude => signed (!negative) magnitude

def scale (x : Binary64) (factor : Nat) : Binary64 :=
  match x with
  | nan => nan
  | signed negative magnitude => signed negative (magnitude.scale factor)

/-- The place in the row of all numbers from minus infinity to infinity; both zeros stand at `0`. -/
def place? : Binary64 → Option Int
  | nan => none
  | signed false magnitude => some magnitude.rank
  | signed true magnitude => some (-magnitude.rank)

/-- The order of the numbers. What is no number is neither less nor greater than anything. -/
def lt (x y : Binary64) : Bool :=
  match x.place?, y.place? with
  | some a, some b => a < b
  | _, _ => false

def isZero (x : Binary64) : Bool :=
  x.place? = some 0

def signBit : Nat := 0x8000000000000000

/-- The bit pattern of a number: the sign above the 63 bits of the magnitude's rank. -/
def bits? : Binary64 → Option Nat
  | nan => none
  | signed false magnitude => some magnitude.rank
  | signed true magnitude => some (signBit + magnitude.rank)

theorem neg_neg (x : Binary64) : x.neg.neg = x := by
  cases x <;> simp [neg]

theorem lt_irrefl (x : Binary64) : x.lt x = false := by
  cases h : x.place? <;> simp [lt, h]

end Binary64

end SpeechMarkup
