import SpeechMarkup.Check.Document
import SpeechMarkup.Check.Error
import SpeechMarkup.CommandLine.Arguments
import SpeechMarkup.CommandLine.FileTree
import SpeechMarkup.Report.Format

/-! The commands of the program, from the arguments and the contents of files to the exit code and the text that is
printed. -/

namespace SpeechMarkup.CommandLine

open Json

structure Response where
  exitCode : UInt32
  output : String
deriving DecidableEq

namespace Response

def print (exitCode : UInt32) (value : Value) : Response :=
  ⟨exitCode, String.ofList (value.pretty 0 ++ ['\n'])⟩

def misuse : Response := ⟨2, ""⟩

def failure (message : String) : Response :=
  print 1 (Value.object [("valid", .bool false), ("error", .string message)]).sorted

end Response

/-- What the libraries around the program decide: the help that arguments ask for in the place of a command, and the
places where the texts of a configuration and of a document are refused. -/
structure Surroundings where
  help? : List String → Option String
  configStop : String → Option Position
  documentStop : String → Option Position

namespace Surroundings

def bare : Surroundings where
  help? _ := none
  configStop _ := none
  documentStop _ := none

def stopIn (around : Surroundings) : Option (Except FileError String) → Option Position
  | some (.ok text) => around.configStop text
  | _ => none

def unparsed (around : Surroundings) (args : List String) : Response :=
  match around.help? args with
  | some text => ⟨0, text⟩
  | none => .misuse

end Surroundings

/-- The configuration of a run: its file, if there is one, and what options set in its place. -/
def configure (invocation : Invocation) (file : Option (Except FileError String)) : Except CheckError Config := do
  let config ← match invocation.value? .config, file with
    | some path, some content => Config.load path content
    | _, _ => .ok {}
  let platform := ((invocation.value? .platform).map Platform.ofName).getD config.platform
  let locale ← match invocation.value? .locale with
    | some tag => Locale.parse tag
    | none => .ok config.locale
  return { platform, locale, failureMode := config.failureMode }

/-- The tags with the attributes that they keep on a platform; `null` for all attributes. -/
def tagList (platform : Platform) : Value :=
  .array (Tag.all.map fun tag => .object [
    ("name", .string tag.name),
    ("attributes", match tag.allowed platform with
      | some names => .array (names.map Value.string)
      | none => .null)])

def fixResult (checked : Checked) : Value :=
  .object [("report", checked.report.toValue), ("document", checked.document.toValue)]

def checkFile (around : Surroundings) (config : Config) (path : String) (content : Except FileError String)
    (respond : Checked → Response) : Response :=
  match content with
  | .error cause => .failure ("Failed to read " ++ path ++ ": " ++ cause.message)
  | .ok text =>
    match config.checkText text with
    | .error cause => .failure ((CheckError.invalidDocument cause).messageAt (around.documentStop text))
    | .ok checked => respond checked

/-- Prints the report. A document that is not valid is told by the exit code too. -/
def respondCheck (checked : Checked) : Response :=
  .print (if checked.report.valid then 0 else 2) checked.report.toValue

def respondFix (checked : Checked) : Response :=
  .print 0 (fixResult checked).sorted

def Invocation.input (invocation : Invocation) : String :=
  (invocation.value? .input).getD "-"

/-- Runs the program over a way to read files and standard input. Each is read when it is needed, and no sooner. -/
def run {m : Type → Type} [Monad m] (around : Surroundings) (readFile : String → m (Except FileError String))
    (readStandardInput : m (Except FileError String)) (args : List String) : m Response := do
  let some invocation := Invocation.parse? args | return around.unparsed args
  let file ← match invocation.value? .config with
    | some path => some <$> readFile path
    | none => pure none
  match configure invocation file with
  | .error cause => return .failure (cause.messageAt (around.stopIn file))
  | .ok config =>
    let path := invocation.input
    let readInput := if path = "-" then readStandardInput else readFile path
    match invocation.command with
    | .tags => return .print 0 (tagList config.platform).sorted
    | .check => return checkFile around config path (← readInput) respondCheck
    | .fix => return checkFile around config path (← readInput) respondFix

def runOver (files : FileTree) (standardInput : Except FileError String) (args : List String) : Response :=
  Id.run (run .bare (fun path => pure (files.read path)) (pure standardInput) args)

end SpeechMarkup.CommandLine
