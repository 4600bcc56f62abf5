import SpeechMarkup.Rule.Grammar
import SpeechMarkup.Text.Quoted
import SpeechMarkup.Violation

/-! An element under repair. Every edit writes a line to the log and puts a record behind those that were made before;
these are steps of their own, and each way to edit takes them in its own order and under its own conditions. -/

namespace SpeechMarkup

inductive LogLevel where
  | debug
  | info
  | warn
deriving DecidableEq

def LogLevel.name : LogLevel → String
  | debug => "DEBUG"
  | info => "INFO"
  | warn => "WARN"

inductive LogSource where
  | rules
  | checker
deriving DecidableEq

structure LogLine where
  level : LogLevel
  source : LogSource
  message : String
deriving DecidableEq

/-- An element as it is by now, the records of what was done to it, and the lines that were logged. -/
structure Repairing where
  element : Element
  violations : List Violation
  log : List LogLine

namespace Repairing

def start (e : Element) : Repairing := ⟨e, [], []⟩

def subject (r : Repairing) : String :=
  "<" ++ r.element.name ++ ">"

def debug (r : Repairing) (message : String) : Repairing :=
  { r with log := r.log ++ [⟨.debug, .rules, r.subject ++ message⟩] }

def record (r : Repairing) (violation : Violation) : Repairing :=
  { r with violations := r.violations ++ [violation] }

def setAttributes (r : Repairing) (attributes : Attributes) : Repairing :=
  { r with element := { r.element with attributes } }

def strip (r : Repairing) (attr : String) : Repairing :=
  let logged := r.debug (" drops unsupported attribute " ++ attr)
  (logged.setAttributes (logged.element.attributes.erase attr)).record (.unknownAttribute r.element.name attr)

/-- Writes another value over one that is not accepted. The line tells of the new value alone, and a record is made only
if there was an old one. -/
def replace (r : Repairing) (attr new : String) : Repairing :=
  let logged := r.debug (" " ++ attr ++ " -> " ++ Text.quoted new)
  let replaced := logged.setAttributes (logged.element.attributes.insert attr new)
  match logged.element.attributes.get? attr with
  | some old => replaced.record (.invalidValue r.element.name attr old)
  | none => replaced

/-- Takes away a value that is not accepted. Neither a line nor a record is made where there was none. -/
def discard (r : Repairing) (attr : String) : Repairing :=
  match r.element.attributes.get? attr with
  | some old =>
    let removed := r.setAttributes (r.element.attributes.erase attr)
    (removed.debug (" drops invalid " ++ attr ++ "=" ++ Text.quoted old)).record (.invalidValue r.element.name attr old)
  | none => r

def reportMissing (r : Repairing) : Repairing :=
  (r.debug " lacks required attributes").record (.missingRequired r.element.name)

/-- Fills in attributes that are missing, and reports once if any was. -/
def require (r : Repairing) (defaults : List (String × String)) : Repairing :=
  if defaults.all fun (attr, _) => r.element.attributes.contains attr then r
  else
    let reported := r.reportMissing
    reported.setAttributes
      (defaults.foldl (fun attributes (attr, value) => attributes.insertNew attr value) reported.element.attributes)

end Repairing

inductive Verdict where
  | accepted
  | unknown
  | replace (value : String)
  | discard

def judge (grammar : List (String × AttributeRule)) (platform : Platform) (attr value : String) : Verdict :=
  match grammar.lookup attr with
  | none => .unknown
  | some rule =>
    if rule.accepts platform value then .accepted
    else match rule.fallback.instead value with
      | some value => .replace value
      | none => .discard

def Repairing.follow (r : Repairing) (attr : String) : Verdict → Repairing
  | .accepted => r
  | .unknown => r.strip attr
  | .replace value => r.replace attr value
  | .discard => r.discard attr

end SpeechMarkup
