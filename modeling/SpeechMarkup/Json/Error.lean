import SpeechMarkup.Json.Value
import SpeechMarkup.Text.Quoted

/-! Why a text is refused as JSON, or as JSON of a certain form. -/

namespace SpeechMarkup.Json

/-- What a value shows at its beginning: the whole of a scalar, and of an array or an object that it is one. -/
inductive Head where
  | null
  | bool (value : Bool)
  | number (value : Number)
  | string (value : String)
  | array
  | object
deriving DecidableEq

def Head.describe : Head → String
  | null => "null"
  | bool value => s!"boolean `{value}`"
  | number (.integer value) => s!"integer `{value}`"
  | number (.float value) => "floating point `" ++ String.ofList (Number.text (.float value)) ++ "`"
  | string value => "string " ++ Text.quoted value
  | array => "sequence"
  | object => "map"

def Value.head : Value → Head
  | null => .null
  | bool value => .bool value
  | number value => .number value
  | string value => .string value
  | array _ => .array
  | object _ => .object

inductive ReadError where
  | endOfValue
  | endOfList
  | endOfObject
  | endOfString
  | expectedValue
  | expectedIdent
  | expectedColon
  | expectedCommaOrBracket
  | expectedCommaOrBrace
  | keyNotString
  | trailingComma
  | trailingCharacters
  | invalidNumber
  | numberOutOfRange
  | invalidEscape
  | loneSurrogate
  | unfinishedEscape
  | controlCharacter
  | recursionLimit
  | invalidType (found : Head) (expected : String)
  | invalidValue (found : Head) (expected : String)
  | invalidLength (length : Nat) (expected : String)
  | unknownVariant (name : String) (known : List String)
  | duplicateField (name : String)
  | missingField (name : String)
deriving DecidableEq

/-- The kinds of failure: the text ends early, is no JSON, or is JSON of another form than the expected. -/
inductive Category where
  | eof
  | syntactic
  | data
deriving DecidableEq

def Category.name : Category → String
  | eof => "eof"
  | syntactic => "syntax"
  | data => "data"

structure Position where
  line : Nat
  column : Nat
deriving DecidableEq

namespace ReadError

def category : ReadError → Category
  | endOfValue | endOfList | endOfObject | endOfString => .eof
  | expectedValue | expectedIdent | expectedColon | expectedCommaOrBracket | expectedCommaOrBrace
  | keyNotString | trailingComma | trailingCharacters | invalidNumber | numberOutOfRange | invalidEscape
  | loneSurrogate | unfinishedEscape | controlCharacter | recursionLimit => .syntactic
  | invalidType .. | invalidValue .. | invalidLength .. | unknownVariant .. | duplicateField ..
  | missingField .. => .data

def expectation : List String → String
  | [] => "there are no variants"
  | [name] => "expected `" ++ name ++ "`"
  | names => "expected one of " ++ String.intercalate ", " (names.map fun name => "`" ++ name ++ "`")

def message : ReadError → String
  | endOfValue => "EOF while parsing a value"
  | endOfList => "EOF while parsing a list"
  | endOfObject => "EOF while parsing an object"
  | endOfString => "EOF while parsing a string"
  | expectedValue => "expected value"
  | expectedIdent => "expected ident"
  | expectedColon => "expected `:`"
  | expectedCommaOrBracket => "expected `,` or `]`"
  | expectedCommaOrBrace => "expected `,` or `\x7d`"
  | keyNotString => "key must be a string"
  | trailingComma => "trailing comma"
  | trailingCharacters => "trailing characters"
  | invalidNumber => "invalid number"
  | numberOutOfRange => "number out of range"
  | invalidEscape => "invalid escape"
  | loneSurrogate => "lone leading surrogate in hex escape"
  | unfinishedEscape => "unexpected end of hex escape"
  | controlCharacter => "control character (\\u0000-\\u001F) found while parsing a string"
  | recursionLimit => "recursion limit exceeded"
  | invalidType found expected => "invalid type: " ++ found.describe ++ ", expected " ++ expected
  | invalidValue found expected => "invalid value: " ++ found.describe ++ ", expected " ++ expected
  | invalidLength length expected => s!"invalid length {length}, expected " ++ expected
  | unknownVariant name known => "unknown variant `" ++ name ++ "`, " ++ expectation known
  | duplicateField name => "duplicate field `" ++ name ++ "`"
  | missingField name => "missing field `" ++ name ++ "`"

def messageAt (e : ReadError) : Option Position → String
  | none => e.message
  | some stop => e.message ++ s!" at line {stop.line} column {stop.column}"

end ReadError

end SpeechMarkup.Json
