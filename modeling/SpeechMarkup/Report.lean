import SpeechMarkup.Config
import SpeechMarkup.Violation

/-! The report of a check: the verdict, and what was repaired for which target. -/

namespace SpeechMarkup

structure Report extends Target where
  valid : Bool
  violations : List Violation
deriving DecidableEq

namespace Report

def hasViolations (report : Report) : Bool :=
  !report.violations.isEmpty

/-- The report of a check that made these repairs. Only a blocking check turns them into a refusal. -/
def of (config : Config) (violations : List Violation) : Report where
  toTarget := config.toTarget
  valid := config.failureMode ≠ .block || violations.isEmpty
  violations := violations

end Report

end SpeechMarkup
