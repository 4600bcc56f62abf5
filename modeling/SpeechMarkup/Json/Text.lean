import SpeechMarkup.Json.Reader

/-! Strings of JSON text. Reading decodes the escapes; two escapes of a surrogate pair give one character. -/

namespace SpeechMarkup.Json

def hexDigit? (c : Char) : Option Nat :=
  if c.isDigit then some (c.toNat - '0'.toNat)
  else if 'a' ≤ c && c ≤ 'f' then some (c.toNat - 'a'.toNat + 10)
  else if 'A' ≤ c && c ≤ 'F' then some (c.toNat - 'A'.toNat + 10)
  else none

/-- Takes four hexadecimal digits off the front. Fewer than four bytes are the end of the text, whatever they
are. -/
def hexUnit : Reader Nat := fun text =>
  let missing : ReadError :=
    if (String.ofList (text.take 4)).utf8ByteSize < 4 then .endOfString else .invalidEscape
  match text with
  | a :: b :: c :: d :: rest =>
    match hexDigit? a, hexDigit? b, hexDigit? c, hexDigit? d with
    | some a, some b, some c, some d => .ok (((a * 16 + b) * 16 + c) * 16 + d, rest)
    | _, _, _, _ => .error missing
  | _ => .error missing

def isLeadingSurrogate (unit : Nat) : Bool :=
  0xD800 ≤ unit && unit ≤ 0xDBFF

def isTrailingSurrogate (unit : Nat) : Bool :=
  0xDC00 ≤ unit && unit ≤ 0xDFFF

def ofSurrogates (leading trailing : Nat) : Char :=
  Char.ofNat (0x10000 + (leading - 0xD800) * 0x400 + (trailing - 0xDC00))

def escapeMark (mark : Char) (text : List Char) : Except ReadError (List Char) :=
  match text with
  | [] => .error .endOfString
  | c :: rest => if c = mark then .ok rest else .error .unfinishedEscape

def unicodeEscape : Reader Char := fun text => do
  let (unit, rest) ← hexUnit text
  if isTrailingSurrogate unit then .error .loneSurrogate
  else if isLeadingSurrogate unit then
    let rest ← escapeMark '\\' rest
    let rest ← escapeMark 'u' rest
    let (second, rest) ← hexUnit rest
    if isTrailingSurrogate second then return (ofSurrogates unit second, rest)
    else .error .loneSurrogate
  else return (Char.ofNat unit, rest)

def shortEscape? : Char → Option Char
  | '"' => some '"'
  | '\\' => some '\\'
  | '/' => some '/'
  | 'b' => some '\x08'
  | 'f' => some '\x0c'
  | 'n' => some '\n'
  | 'r' => some '\r'
  | 't' => some '\t'
  | _ => none

def stringChar : Reader (Option Char) := fun text =>
  match text with
  | [] => .error .endOfString
  | c :: rest =>
    if c = '"' then .ok (none, rest)
    else if c = '\\' then
      match rest with
      | [] => .error .endOfString
      | e :: rest =>
        if e = 'u' then (unicodeEscape rest).map fun (c, rest) => (some c, rest)
        else match shortEscape? e with
          | some c => .ok (some c, rest)
          | none => .error .invalidEscape
    else if c < ' ' then .error .controlCharacter
    else .ok (some c, rest)

def stringBody : Reader String := fun text => do
  let round : List Char → Reader (Round (List Char) String) := fun before text => do
    match ← stringChar text with
    | (none, rest) => return (.done (String.ofList before.reverse), rest)
    | (some c, rest) => return (.again (c :: before), rest)
  loop round [] text

/-- Passes over one character of a string, and says whether it was not the closing quote. The four digits of an
escape are looked at one by one only. -/
def passChar : Reader Bool := fun text =>
  match text with
  | [] => .error .endOfString
  | c :: rest =>
    if c = '"' then .ok (false, rest)
    else if c = '\\' then
      match rest with
      | [] => .error .endOfString
      | e :: rest =>
        if e = 'u' then (hexUnit rest).map fun (_, rest) => (true, rest)
        else if (shortEscape? e).isSome then .ok (true, rest)
        else .error .invalidEscape
    else if c < ' ' then .error .controlCharacter
    else .ok (true, rest)

def passString (text : List Char) : Except ReadError (List Char) := do
  let round : Unit → Reader (Round Unit Unit) := fun _ text => do
    let (more, rest) ← passChar text
    return (if more then .again () else .done (), rest)
  let (_, rest) ← loop round () text
  return rest

end SpeechMarkup.Json
