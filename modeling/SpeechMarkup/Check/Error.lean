import SpeechMarkup.Config.Format

/-! Why a check does not come about. -/

namespace SpeechMarkup

inductive FileError where
  | notFound
  | permissionDenied
  | notDirectory
  | isDirectory
  | nameTooLong
  | notUtf8
  | other (message : String)
deriving DecidableEq

def FileError.message : FileError → String
  | notFound => "No such file or directory (os error 2)"
  | permissionDenied => "Permission denied (os error 13)"
  | notDirectory => "Not a directory (os error 20)"
  | isDirectory => "Is a directory (os error 21)"
  | nameTooLong => "File name too long (os error 36)"
  | notUtf8 => "stream did not contain valid UTF-8"
  | other message => message

inductive CheckError where
  | invalidDocument (cause : Json.ReadError)
  | unsupportedLocale (tag : String)
  | configRead (path : String) (cause : FileError)
  | invalidConfig (path : String) (cause : Json.ReadError)
deriving DecidableEq

namespace CheckError

def messageAt (stop : Option Json.Position) : CheckError → String
  | invalidDocument cause => "Invalid document: " ++ cause.messageAt stop
  | unsupportedLocale tag => "Unsupported locale: " ++ tag
  | configRead path cause => "Failed to read config " ++ path ++ ": " ++ cause.message
  | invalidConfig path cause => "Invalid config " ++ path ++ ": " ++ cause.messageAt stop

def message : CheckError → String :=
  messageAt none

end CheckError

def Locale.parse (tag : String) : Except CheckError Locale :=
  match ofTag? tag with
  | some locale => .ok locale
  | none => .error (.unsupportedLocale tag)

def Config.load (path : String) (content : Except FileError String) : Except CheckError Config :=
  match content with
  | .error cause => .error (.configRead path cause)
  | .ok text => (parse text).mapError (.invalidConfig path)

end SpeechMarkup
