import SpeechMarkup.Check.Walk
import SpeechMarkup.Element.Format
import SpeechMarkup.Report

/-! The check of a whole document: the repaired document, the report, and the log. The log has the lines of each rule, a
line for each element that its rule took away, one for the whole document, and in a warning check one for each
violation. -/

namespace SpeechMarkup

def Action.word : Action → String
  | keep => "Keep"
  | remove => "Remove"
  | unwrap => "ReplaceWithChildren"

def leavingLine (tag : Tag) (action : Action) (index : Nat) : LogLine :=
  ⟨.debug, .checker, action.word ++ " <" ++ tag.name ++ s!"> at index {index}"⟩

/-- The lines of a visit: the repairs of the rule, and after them the element's leaving, if it leaves. -/
def Visit.log (visit : Visit) : List LogLine :=
  match visit.ruling with
  | none => []
  | some ⟨tag, outcome⟩ =>
    outcome.log ++ if outcome.action.removesElement then [leavingLine tag outcome.action visit.index] else []

def summaryLine (target : Target) (violations : List Violation) : LogLine :=
  ⟨.info, .checker, "checked document for " ++ target.platform.name ++ "/" ++ target.locale.tag
    ++ s!": {violations.length} violation(s)"⟩

def FailureMode.warnings (mode : FailureMode) (violations : List Violation) : List LogLine :=
  match mode with
  | warn => violations.map fun violation => ⟨.warn, .checker, violation.display⟩
  | block | log => []

structure Checked where
  document : Element
  report : Report
  log : List LogLine

def Config.check (config : Config) (document : Element) : Checked :=
  let (document, visits) := walk config.toTarget document
  let violations := visits.flatMap Visit.violations
  { document
    report := .of config violations
    log := visits.flatMap Visit.log ++ summaryLine config.toTarget violations :: config.failureMode.warnings violations }

def Config.checkText (config : Config) (text : String) : Except Json.ReadError Checked :=
  (Element.parse text).map config.check

end SpeechMarkup
