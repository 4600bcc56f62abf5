/-! The arguments of the program: a command, and options before and after it. -/

namespace SpeechMarkup.CommandLine

inductive OptionName where
  | config
  | platform
  | locale
  | input
deriving DecidableEq

namespace OptionName

def long : OptionName → String
  | config => "config"
  | platform => "platform"
  | locale => "locale"
  | input => "input"

def short : OptionName → Char
  | config => 'c'
  | platform => 'p'
  | locale => 'l'
  | input => 'i'

/-- A configuration is a path, and a path is not empty; every other option takes any value. -/
def takes (name : OptionName) (value : String) : Bool :=
  name ≠ config || value ≠ ""

end OptionName

def everywhere : List OptionName := [.config, .platform, .locale]

inductive CommandName where
  | tags
  | check
  | fix
deriving DecidableEq

namespace CommandName

def all : List CommandName := [tags, check, fix]

def word : CommandName → String
  | tags => "tags"
  | check => "check"
  | fix => "fix"

def options : CommandName → List OptionName
  | tags => everywhere
  | check | fix => .input :: everywhere

end CommandName

def attached : List Char → Option (List Char)
  | '=' :: value => some value
  | _ => none

/-- The option that an argument names, and the value that is attached to it. Long names are written out in full,
short ones may have their value right behind them. -/
def option? (known : List OptionName) (arg : List Char) : Option (OptionName × Option String) :=
  match arg with
  | '-' :: '-' :: rest => do
    let long := String.ofList (rest.takeWhile (· ≠ '='))
    let name ← known.find? (·.long = long)
    return (name, (attached (rest.dropWhile (· ≠ '='))).map String.ofList)
  | '-' :: c :: rest => do
    let name ← known.find? (·.short = c)
    if rest.isEmpty then return (name, none)
    return (name, some (String.ofList ((attached rest).getD rest)))
  | _ => none

/-- Whether an argument is meant as an option. A lone hyphen is not; it stands for standard input. -/
def looksLikeOption (arg : String) : Bool :=
  arg.toList.head? = some '-' && arg ≠ "-"

abbrev Settings := List (OptionName × String)

def withSetting (name : OptionName) (value : String) (later : Option (Settings × List String)) :
    Option (Settings × List String) := do
  guard (name.takes value)
  let (settings, rest) ← later
  return ((name, value) :: settings, rest)

/-- Takes options off the front, up to the first argument that is none. Nothing where the options are misused: an
unknown one, a value that is missing or not taken. -/
def takeOptions (known : List OptionName) : List String → Option (Settings × List String)
  | [] => some ([], [])
  | arg :: rest =>
    if !looksLikeOption arg || arg = "--" then some ([], arg :: rest)
    else match option? known arg.toList with
      | none => none
      | some (name, some value) => withSetting name value (takeOptions known rest)
      | some (name, none) =>
        match rest with
        | [] => none
        | value :: rest =>
          if looksLikeOption value then none else withSetting name value (takeOptions known rest)

def setOnce (settings : Settings) : Bool :=
  decide (settings.map Prod.fst).Nodup

/-- A command with its options. Of an option that stands before and after the command, the later one counts. -/
structure Invocation where
  command : CommandName
  before : Settings
  after : Settings

namespace Invocation

def value? (invocation : Invocation) (name : OptionName) : Option String :=
  (invocation.after.lookup name).or (invocation.before.lookup name)

def parse? (args : List String) : Option Invocation := do
  let (before, rest) ← takeOptions everywhere args
  let word :: rest := rest | none
  let command ← CommandName.all.find? (·.word = word)
  let (after, rest) ← takeOptions command.options rest
  guard (rest = [] || rest = ["--"])
  guard (setOnce before && setOnce after)
  return { command, before, after }

end Invocation

end SpeechMarkup.CommandLine
