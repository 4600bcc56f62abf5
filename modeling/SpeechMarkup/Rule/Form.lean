import SpeechMarkup.Number.Shortest
import SpeechMarkup.Quantity.Duration
import SpeechMarkup.Quantity.Leading
import SpeechMarkup.Quantity.Time

/-! What values an attribute takes, and what becomes of a value that it does not take. -/

namespace SpeechMarkup

inductive Form where
  | anything
  | oneOf (words : List String)
  | duration (ceiling : Option Nat)
  | quantity (unit : String) (sign : SignRule) (range : Option NumberRange)
  | identifier
  | timeOffset
  | timeFormat

/-- Whether a text is well formed as a value. A quantity with a range has to lie inside it as well. -/
def Form.accepts (platform : Platform) (text : String) : Form → Bool
  | anything => true
  | oneOf words => words.contains text
  | duration ceiling => (Duration.parse text platform ceiling).isOk
  | quantity unit sign range =>
    (Signed.parse text unit sign).isOk && range.all fun range => (range.judge text).inRange
  | identifier => isIdentifier text.toList
  | timeOffset => (TimeOffset.parse text).isOk
  | timeFormat => isTimeFormat text.toList

inductive Fallback where
  | fixed (value : String)
  /-- The number at the front of the value, moved into the range, with a unit and perhaps an explicit sign. -/
  | nearest (range : NumberRange) (unit : String) (explicitSign : Bool)
  /-- Nothing: the attribute goes. -/
  | nothing

def Fallback.instead (value : String) : Fallback → Option String
  | fixed value => some value
  | nearest range unit explicitSign =>
    let number := (range.judge value).value
    some (if explicitSign then number.signedText unit else number.text ++ unit)
  | nothing => none

structure AttributeRule where
  forms : List Form
  fallback : Fallback

def AttributeRule.accepts (rule : AttributeRule) (platform : Platform) (value : String) : Bool :=
  rule.forms.any (Form.accepts platform value)

end SpeechMarkup
