import SpeechMarkup.Quantity.Numeral
import SpeechMarkup.Target

/-! Durations: `<digits>ms`, `<numeral>s`, a bare number of seconds on the google platform, or `infinity`.
They are whole milliseconds; what a fraction of a second holds beyond its third place is dropped. -/

namespace SpeechMarkup

inductive Duration where
  | millis (count : Nat)
  | infinite
deriving DecidableEq

namespace Duration

def longest : Nat := UInt64.size - 1

def millis? (platform : Platform) (cs : List Char) : Option Nat :=
  match ['m', 's'].isSuffixOf? cs, ['s'].isSuffixOf? cs with
  | some count, _ => if isDigits count then some (Decimal.ofDigits count) else none
  | none, some seconds => (Numeral.read? seconds).map Numeral.thousandfold
  | none, none => if platform = .google then (Numeral.read? cs).map Numeral.thousandfold else none

/-- Reads a duration. Under a ceiling neither `infinity` nor anything longer than the ceiling is allowed. -/
def parse (text : String) (platform : Platform) (ceiling : Option Nat) : Except QuantityError Duration :=
  if text = "infinity" then
    if ceiling.isNone then .ok infinite else .error .infinityNotAllowed
  else match millis? platform text.toList with
    | none => .error (.malformed text)
    | some count =>
      if longest < count then .error (.malformed text)
      else match ceiling with
        | none => .ok (millis count)
        | some most => if most < count then .error (.exceedsCeiling count most) else .ok (millis count)

end Duration

end SpeechMarkup
