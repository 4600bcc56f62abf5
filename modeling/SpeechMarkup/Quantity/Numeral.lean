import SpeechMarkup.Number.Decimal
import SpeechMarkup.Text.Quoted

/-! Why a text is refused as a quantity, and the unsigned numerals `<digits>[.<digits>]`, as all quantities but the
leading number of a text use them. -/

namespace SpeechMarkup

inductive QuantityError where
  | malformed (text : String)
  | infinityNotAllowed
  | exceedsCeiling (millis ceiling : Nat)
deriving DecidableEq

def QuantityError.message : QuantityError → String
  | malformed text => "malformed value " ++ Text.quoted text
  | infinityNotAllowed => "infinity is not allowed where a ceiling applies"
  | exceedsCeiling millis ceiling => s!"{millis}ms exceeds the {ceiling}ms ceiling"

def isDigits (cs : List Char) : Bool :=
  !cs.isEmpty && cs.all Char.isDigit

/-- The digits before and after the point; none after it where there is no point. -/
structure Numeral where
  whole : List Char
  fraction : List Char
deriving DecidableEq

namespace Numeral

def read? (cs : List Char) : Option Numeral :=
  let whole := cs.takeWhile (· ≠ '.')
  match cs.dropWhile (· ≠ '.') with
  | [] => if isDigits whole then some ⟨whole, []⟩ else none
  | _ :: fraction => if isDigits whole && isDigits fraction then some ⟨whole, fraction⟩ else none

def decimal (n : Numeral) : Decimal :=
  .ofPlaces n.whole n.fraction

def thousandfold (n : Numeral) : Nat :=
  Decimal.ofDigits (n.whole ++ (n.fraction ++ ['0', '0', '0']).take 3)

end Numeral

end SpeechMarkup
