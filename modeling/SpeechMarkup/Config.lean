import SpeechMarkup.Target

/-! What a check is set to: the target, and what violations mean for the verdict. -/

namespace SpeechMarkup

inductive FailureMode where
  /-- Any violation makes the document invalid. -/
  | block
  /-- The document stays valid, and a warning is logged for each violation. -/
  | warn
  /-- The document stays valid, and violations are only recorded. -/
  | log
deriving DecidableEq

namespace FailureMode

def name : FailureMode → String
  | block => "block"
  | warn => "warn"
  | log => "log"

def all : List FailureMode := [block, warn, log]

end FailureMode

structure Config extends Target where
  failureMode : FailureMode := .block
deriving DecidableEq

end SpeechMarkup
