import SpeechMarkup.CommandLine.Run

/-! The program: reads files and standard input, prints the response, and leaves with its exit code. -/

namespace SpeechMarkup.Program

def decodeText (bytes : ByteArray) : Except FileError String :=
  match String.fromUTF8? bytes with
  | some text => .ok text
  | none => .error .notUtf8

/-- Whether a system's error has this number. Some calls give the number, others its negative. -/
def hasNumber (code number : UInt32) : Bool :=
  code = number || code = 0 - number

def readFileText (path : String) : IO (Except FileError String) := do
  try
    return decodeText (← IO.FS.readBinFile path)
  catch
    | .noFileOrDirectory .. => return .error .notFound
    | .permissionDenied .. => return .error .permissionDenied
    | .inappropriateType _ code _ =>
      return .error (if hasNumber code 20 then .notDirectory else .isDirectory)
    | .invalidArgument _ code details =>
      return .error (if hasNumber code 36 then .nameTooLong else .other details)
    | e => return .error (.other (toString e))

def readStandardInputText : IO (Except FileError String) := do
  return decodeText (← (← IO.getStdin).readBinToEnd)

end SpeechMarkup.Program

open SpeechMarkup in
def main (args : List String) : IO UInt32 := do
  let response ← CommandLine.run .bare Program.readFileText Program.readStandardInputText args
  IO.print response.output
  return response.exitCode
