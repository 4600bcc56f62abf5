import SpeechMarkup.Rule.Outcome

/-! One slot of a list of children: the rule for the element there is run, and its action is applied to the list. -/

namespace SpeechMarkup

/-- Applies an action to the slot. Behind the end of the list there is nothing to act on. -/
def Action.apply (action : Action) (index : Nat) (children : List Element) : List Element :=
  match children[index]?, action with
  | some _, .remove => children.take index ++ children.drop (index + 1)
  | some e, .unwrap => children.take index ++ e.childList ++ children.drop (index + 1)
  | _, _ => children

def Action.takesAway (action : Action) (index : Nat) (children : List Element) : Bool :=
  action.removesElement && index < children.length

structure Ruling where
  tag : Tag
  outcome : Outcome

/-- A look at the child in a slot: its index, the child as it was found, and what the rule of its tag made of it. A
child with an unknown tag has no ruling. -/
structure Visit where
  index : Nat
  found : Element
  ruling : Option Ruling

namespace Visit

def violations (visit : Visit) : List Violation :=
  match visit.ruling with
  | none => []
  | some ruling => ruling.outcome.violations

end Visit

/-- A slot after it was checked: the parent, whether the child is gone from it, and the visit, if there was a child.
Where the child is gone the slot holds what comes next. -/
structure SlotCheck where
  parent : Element
  gone : Bool
  visit : Option Visit

def Element.placeOf (parent : Element) (index : Nat) (target : Target) : Place where
  target := target
  parent := if parent.name = "" then none else some parent.name
  index := index

/-- Checks the child in a slot. Children with unknown tags are left alone. -/
def checkSlot (target : Target) (parent : Element) (index : Nat) : SlotCheck :=
  match parent.children with
  | none => ⟨parent, false, none⟩
  | some children =>
    match children[index]? with
    | none => ⟨parent, false, none⟩
    | some e =>
      match Tag.ofName? e.name with
      | none => ⟨parent, false, some ⟨index, e, none⟩⟩
      | some tag =>
        let outcome := tag.check (parent.placeOf index target) e
        let checked := children.set index outcome.element
        ⟨{ parent with children := some (outcome.action.apply index checked) },
          outcome.action.takesAway index checked, some ⟨index, e, some ⟨tag, outcome⟩⟩⟩

structure ElementCheck where
  parent : Element
  records : List Violation
  gone : Bool

/-- Checks the child in a slot, and puts its records behind those that were made before. -/
def checkElement (target : Target) (parent : Element) (index : Nat) (records : List Violation) : ElementCheck :=
  let slot := checkSlot target parent index
  ⟨slot.parent, records ++ slot.visit.toList.flatMap Visit.violations, slot.gone⟩

end SpeechMarkup
