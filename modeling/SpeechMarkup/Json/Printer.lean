import SpeechMarkup.Json.Value

/-! JSON text of values, on one line or indented by two places a level. -/

namespace SpeechMarkup.Json

def escapeChar (c : Char) : List Char :=
  match c with
  | '"' => ['\\', '"']
  | '\\' => ['\\', '\\']
  | '\x08' => ['\\', 'b']
  | '\x0c' => ['\\', 'f']
  | '\n' => ['\\', 'n']
  | '\r' => ['\\', 'r']
  | '\t' => ['\\', 't']
  | _ =>
    if c < ' ' then ['\\', 'u', '0', '0', Nat.digitChar (c.toNat / 16), Nat.digitChar (c.toNat % 16)]
    else [c]

def stringText (s : String) : List Char :=
  '"' :: s.toList.flatMap escapeChar ++ ['"']

def separated (separator : List Char) (texts : List (List Char)) : List Char :=
  List.intercalate separator texts

def lineBreak (indent : Nat) : List Char :=
  '\n' :: List.replicate (2 * indent) ' '

namespace Value

mutual

def compact : Value → List Char
  | null => ['n', 'u', 'l', 'l']
  | bool true => ['t', 'r', 'u', 'e']
  | bool false => ['f', 'a', 'l', 's', 'e']
  | number n => n.text
  | string s => stringText s
  | array items => '[' :: separated [','] (compactItems items) ++ [']']
  | object members => '{' :: separated [','] (compactMembers members) ++ ['}']

def compactItems : List Value → List (List Char)
  | [] => []
  | x :: rest => compact x :: compactItems rest

def compactMembers : List (String × Value) → List (List Char)
  | [] => []
  | (name, x) :: rest => (stringText name ++ ':' :: compact x) :: compactMembers rest

end

mutual

def pretty (indent : Nat) : Value → List Char
  | null => ['n', 'u', 'l', 'l']
  | bool true => ['t', 'r', 'u', 'e']
  | bool false => ['f', 'a', 'l', 's', 'e']
  | number n => n.text
  | string s => stringText s
  | array [] => ['[', ']']
  | array (x :: rest) =>
    '[' :: lineBreak (indent + 1) ++ separated (',' :: lineBreak (indent + 1)) (prettyItems (indent + 1) (x :: rest))
      ++ lineBreak indent ++ [']']
  | object [] => ['{', '}']
  | object (x :: rest) =>
    '{' :: lineBreak (indent + 1) ++ separated (',' :: lineBreak (indent + 1)) (prettyMembers (indent + 1) (x :: rest))
      ++ lineBreak indent ++ ['}']

def prettyItems (indent : Nat) : List Value → List (List Char)
  | [] => []
  | x :: rest => pretty indent x :: prettyItems indent rest

def prettyMembers (indent : Nat) : List (String × Value) → List (List Char)
  | [] => []
  | (name, x) :: rest => (stringText name ++ ':' :: ' ' :: pretty indent x) :: prettyMembers indent rest

end

end Value

end SpeechMarkup.Json
