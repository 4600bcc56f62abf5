import SpeechMarkup.Rule.Repair

/-! The rule of each tag: from an element and its place to the repaired element, its records and lines, and what is to
become of the element in the list of its parent's children. -/

namespace SpeechMarkup

inductive Action where
  | keep
  | remove
  /-- The element's children take its place. -/
  | unwrap
deriving DecidableEq

def Action.removesElement (action : Action) : Bool :=
  action ≠ keep

structure Outcome extends Repairing where
  action : Action

def Outcome.isClean (outcome : Outcome) : Bool :=
  outcome.action = .keep && outcome.violations.isEmpty

namespace Tag

/-- The attribute that is looked at before all others, as another depends on it. -/
def leading : Tag → Option String
  | sayAs => some "interpret-as"
  | _ => none

def inOrder (tag : Tag) (attributes : Attributes) : List (String × String) :=
  attributes.entries.filter (fun e => tag.leading = some e.1)
    ++ attributes.entries.filter (fun e => tag.leading ≠ some e.1)

def correct (tag : Tag) (place : Place) (r : Repairing) : Repairing :=
  let grammar := tag.grammar place r.element.attributes
  (tag.inOrder r.element.attributes).foldl (fun r e => r.follow e.1 (judge grammar place.target.platform e.1 e.2)) r

/-- A pause that says nothing about its length is a medium one; this is no repair. -/
def fillPause (attributes : Attributes) : Attributes :=
  if attributes.contains "strength" || attributes.contains "time" then attributes
  else attributes.insert "strength" "medium"

/-- A recording without a source is removed; every other element is kept as it is now. -/
def finish (tag : Tag) (r : Repairing) : Outcome :=
  match tag with
  | audio => if r.element.attributes.contains "src" then ⟨r, .keep⟩ else ⟨r.reportMissing, .remove⟩
  | pause => ⟨r.setAttributes (fillPause r.element.attributes), .keep⟩
  | _ => ⟨r.require tag.required, .keep⟩

/-- The locale has no such element: what is inside stays, the element goes. -/
def checkUnsupported (locale : Locale) (e : Element) : Outcome :=
  ⟨((Repairing.start e).debug (" is not supported in " ++ locale.tag)).record (.missingRequired e.name),
    if e.childList.isEmpty then .remove else .unwrap⟩

def checkAttributes (tag : Tag) (place : Place) (e : Element) : Outcome :=
  if tag.supportedIn place.target.locale then tag.finish (tag.correct place (.start e))
  else checkUnsupported place.target.locale e

def checkDesc (place : Place) (e : Element) : Outcome :=
  if place.parent = some Tag.audio.name then ⟨.start e, .keep⟩
  else ⟨((Repairing.start e).debug " outside <audio> removed").record (.misplaced e.name), .remove⟩

def timedNames : List String := [Tag.par.name, Tag.seq.name, Tag.media.name]

def isTimed (e : Element) : Bool :=
  timedNames.contains e.name

def childLabel (e : Element) : String :=
  if e.kind = some .comment then "#comment" else e.name

/-- Looks at the children of a timed container one by one. Gives those that are kept. -/
def retainTimed (r : Repairing) : List Element → List Element × Repairing
  | [] => ([], r)
  | child :: rest =>
    if isTimed child then
      let (kept, r) := retainTimed r rest
      (child :: kept, r)
    else
      let logged := r.debug (" drops child <" ++ childLabel child ++ ">")
      retainTimed (logged.record (.disallowedChild r.element.name (childLabel child))) rest

def checkContainer (e : Element) : Outcome :=
  match e.children with
  | none => ⟨.start e, .keep⟩
  | some children =>
    let (kept, r) := retainTimed (.start e) children
    ⟨{ r with element := { r.element with children := some kept } }, .keep⟩

def check (tag : Tag) (place : Place) (e : Element) : Outcome :=
  match tag with
  | desc => checkDesc place e
  | par | seq => checkContainer e
  | speak => ⟨.start e, .keep⟩
  | _ => tag.checkAttributes place e

end Tag

end SpeechMarkup
