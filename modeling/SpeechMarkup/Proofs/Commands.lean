import SpeechMarkup.Proofs.Configuration
import SpeechMarkup.Proofs.ReportText

/-! The two commands that check a document. Given the same options, they read the same files and fail alike; where they
do not fail, one prints the report, and the other a value with the same report and the repaired document. -/

namespace SpeechMarkup.CommandLine

open Json

section Arguments

variable {known : List OptionName} {front : List String} {before : Settings}

end Arguments

section Settled

variable {around : Surroundings} {files : String → Except FileError String}
  {standardInput : Except FileError String} {option : Options}

def answer (around : Surroundings) (files : String → Except FileError String)
    (standardInput : Except FileError String) (args : List String) : Response :=
  Id.run (run around (fun path => pure (files path)) (pure standardInput) args)

theorem runOver_eq_answer (tree : FileTree) (args : List String) :
    runOver tree standardInput args = answer .bare tree.read standardInput args := rfl

def inputPath (option : Options) : String :=
  (option .input).getD "-"

def inputContent (files : String → Except FileError String) (standardInput : Except FileError String)
    (option : Options) : Except FileError String :=
  if inputPath option = "-" then standardInput else files (inputPath option)

def checkInput (around : Surroundings) (files : String → Except FileError String)
    (standardInput : Except FileError String) (option : Options) (config : Config) : Except String Checked :=
  match inputContent files standardInput option with
  | .error cause => .error ("Failed to read " ++ inputPath option ++ ": " ++ cause.message)
  | .ok text =>
    (config.checkText text).mapError fun cause =>
      (CheckError.invalidDocument cause).messageAt (around.documentStop text)

def settle (around : Surroundings) (files : String → Except FileError String)
    (standardInput : Except FileError String) (invocation : Invocation) : Except String Checked :=
  let file := (invocation.value? .config).map files
  match configure invocation file with
  | .error cause => .error (cause.messageAt (around.stopIn file))
  | .ok config => checkInput around files standardInput invocation.value? config

variable {invocation : Invocation} {args : List String} {result : Except String Checked} {respond : Checked → Response}

end Settled

end SpeechMarkup.CommandLine
