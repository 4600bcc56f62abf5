import SpeechMarkup.Dictionary

/-! The tree of a document. Elements carry a name, attributes and children, text nodes carry text; the document
itself is a nameless node around the nodes at the top. -/

namespace SpeechMarkup

inductive NodeKind where
  | element
  | text
  | cdata
  | comment
  | instruction
  | doctype
  | declaration
deriving DecidableEq

namespace NodeKind

def name : NodeKind → String
  | element => "element"
  | text => "text"
  | cdata => "cdata"
  | comment => "comment"
  | instruction => "instruction"
  | doctype => "doctype"
  | declaration => "declaration"

def all : List NodeKind := [element, text, cdata, comment, instruction, doctype, declaration]

end NodeKind

abbrev Attributes := Dictionary String

/-- A node of the tree. No list of children is something else than an empty one. -/
structure Element where
  kind : Option NodeKind := none
  name : String := ""
  attributes : Attributes := .empty
  children : Option (List Element) := none
  text : Option String := none

namespace Element

def childList (e : Element) : List Element :=
  e.children.getD []

def ofText (text : String) : Element :=
  { kind := some .text, text := some text }

def document (nodes : List Element) : Element :=
  { children := some nodes }

/-- Whether this is a text node, written plainly or as a CDATA section. -/
def isText (e : Element) : Bool :=
  e.kind = some .text || e.kind = some .cdata

def setAttribute (e : Element) (name value : String) : Element :=
  { e with attributes := e.attributes.insert name value }

def removeAttribute (e : Element) (name : String) : Element :=
  { e with attributes := e.attributes.erase name }

mutual

def weight : Element → Nat
  | ⟨_, _, _, none, _⟩ => 1
  | ⟨_, _, _, some children, _⟩ => 1 + totalWeight children

def totalWeight : List Element → Nat
  | [] => 0
  | e :: rest => e.weight + totalWeight rest

end

theorem weight_eq (e : Element) : e.weight = 1 + totalWeight e.childList := by
  obtain ⟨_, _, _, _ | _, _⟩ := e <;> simp [weight, totalWeight, childList]

theorem weight_pos (e : Element) : 0 < e.weight := by
  rw [weight_eq]; omega

theorem totalWeight_append (a b : List Element) : totalWeight (a ++ b) = totalWeight a + totalWeight b := by
  induction a with
  | nil => simp [totalWeight]
  | cons e rest ih => simp only [List.cons_append, totalWeight, ih]; omega

theorem totalWeight_filter_le (p : Element → Bool) (es : List Element) :
    totalWeight (es.filter p) ≤ totalWeight es := by
  induction es with
  | nil => simp
  | cons e rest ih =>
    rw [List.filter_cons]
    split <;> simp only [totalWeight] <;> omega

end Element

end SpeechMarkup
