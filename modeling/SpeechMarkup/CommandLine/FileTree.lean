import SpeechMarkup.Check.Error

/-! Files in memory: a tree of directories and files, and what comes of reading the file at a path. A path is
followed name by name, from the root or from the current directory, and the first name that leads nowhere tells why
there is nothing to read. -/

namespace SpeechMarkup.CommandLine

inductive Entry where
  | directory
  | file (content : Except FileError String)

/-- The entries below the root and the current directory. Their places are given by the names on the way from the
root. -/
structure FileTree where
  entries : List (List String × Entry)
  current : List String

namespace FileTree

def longestName : Nat := 255

def longestPath : Nat := 4095

def entryAt (tree : FileTree) (place : List String) : Except FileError Entry :=
  if place = [] then .ok .directory
  else match tree.entries.lookup place with
    | some entry => .ok entry
    | none => .error .notFound

/-- Follows names from a place on. Every name, the empty one behind a last slash too, has to start from a
directory. -/
def follow (tree : FileTree) (place : List String) : List String → Except FileError Entry
  | [] => tree.entryAt place
  | name :: names => do
    match ← tree.entryAt place with
    | .file _ => .error .notDirectory
    | .directory =>
      if name = "" || name = "." then follow tree place names
      else if name = ".." then follow tree place.dropLast names
      else if longestName < name.utf8ByteSize then .error .nameTooLong
      else follow tree (place ++ [name]) names

def read (tree : FileTree) (path : String) : Except FileError String := do
  if path = "" then .error .notFound
  else if longestPath < path.utf8ByteSize then .error .nameTooLong
  else
    let names := path.splitOn "/"
    match ← tree.follow (if names.head? = some "" then [] else tree.current) names with
    | .directory => .error .isDirectory
    | .file content => content

end FileTree

end SpeechMarkup.CommandLine
