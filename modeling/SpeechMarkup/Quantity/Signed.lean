import SpeechMarkup.Quantity.Numeral

/-! Signed quantities `[sign]<numeral><unit>`: percentages, decibels, semitones and repeat counts. -/

namespace SpeechMarkup

inductive Sign where
  | plus
  | minus
deriving DecidableEq

namespace Sign

def read : List Char → Option Sign × List Char
  | '+' :: rest => (some plus, rest)
  | '-' :: rest => (some minus, rest)
  | rest => (none, rest)

end Sign

inductive SignRule where
  | forbidden
  | plusOnly
  | optional
  | required
deriving DecidableEq

def SignRule.allows : SignRule → Option Sign → Bool
  | forbidden, sign => sign.isNone
  | plusOnly, sign => sign ≠ some .minus
  | optional, _ => true
  | required, sign => sign.isSome

namespace Signed

def read? (rule : SignRule) (unit cs : List Char) : Option Binary64 := do
  let (sign, magnitude) := Sign.read (← unit.isSuffixOf? cs)
  guard (rule.allows sign)
  let numeral ← Numeral.read? magnitude
  return numeral.decimal.toBinary64 (sign = some .minus)

def parse (text unit : String) (rule : SignRule) : Except QuantityError Binary64 :=
  match read? rule unit.toList text.toList with
  | some x => .ok x
  | none => .error (.malformed text)

def percent (text : String) (rule : SignRule) : Except QuantityError Binary64 :=
  parse text "%" rule

def decibels (text : String) (rule : SignRule) : Except QuantityError Binary64 :=
  parse text "dB" rule

/-- Semitones always carry a sign. -/
def semitones (text : String) : Except QuantityError Binary64 :=
  parse text "st" .required

/-- A repeat count need not be whole. -/
def repeatCount (text : String) : Except QuantityError Binary64 :=
  parse text "" .plusOnly

end Signed

end SpeechMarkup
