import SpeechMarkup.Element

/-! Edits of a node inside a tree. A node is found by the places of the nodes on the way to it among their
siblings. -/

namespace SpeechMarkup.Element

/-- Edits the node at the end of a path, and gives the result of the edit with the whole tree; nothing where the
path leads to no node. -/
def editAt? {α : Type} (edit : Element → α × Element) : (path : List Nat) → Element → Option (α × Element)
  | [], e => some (edit e)
  | index :: path, e => do
    let child ← e.childList[index]?
    let (result, child) ← editAt? edit path child
    return (result, { e with children := e.children.map (·.set index child) })

/-- Puts a node before the one at an index, or at the end; makes the list of children where there is none. -/
def insertChild (e : Element) (index : Nat) (child : Element) : Element :=
  { e with children := some (e.childList.take index ++ child :: e.childList.drop index) }

end SpeechMarkup.Element
