import SpeechMarkup.Check.Slot

/-! The walk over a document. The children of a node are checked from left to right, and after each one that stays
the children inside it. Where an element goes, the slot is looked at again: what comes into it has to pass where it
stands now. Every round has fewer nodes before it than the last, so the walk ends. -/

namespace SpeechMarkup

open Element

namespace Repairing

@[simp] theorem children_replace (r : Repairing) (attr new : String) :
    (r.replace attr new).element.children = r.element.children := by
  simp only [replace]
  split <;> rfl

@[simp] theorem children_discard (r : Repairing) (attr : String) :
    (r.discard attr).element.children = r.element.children := by
  simp only [discard]
  split <;> rfl

@[simp] theorem children_require (r : Repairing) (defaults : List (String × String)) :
    (r.require defaults).element.children = r.element.children := by
  simp only [require]
  split <;> rfl

@[simp] theorem children_follow (r : Repairing) (attr : String) (verdict : Verdict) :
    (r.follow attr verdict).element.children = r.element.children := by
  cases verdict with
  | accepted => rfl
  | unknown => rfl
  | replace new => exact children_replace r attr new
  | discard => exact children_discard r attr

end Repairing

namespace Tag

theorem children_correct (tag : Tag) (place : Place) (r : Repairing) :
    (tag.correct place r).element.children = r.element.children := by
  simp only [correct]
  generalize tag.inOrder r.element.attributes = entries
  generalize tag.grammar place r.element.attributes = grammar
  induction entries generalizing r with
  | nil => rfl
  | cons entry rest ih => rw [List.foldl_cons, ih, Repairing.children_follow]

theorem children_checkAttributes (tag : Tag) (place : Place) (e : Element) :
    (tag.checkAttributes place e).element.children = e.children := by
  unfold checkAttributes
  split
  · have kept := children_correct tag place (.start e)
    cases tag with
    | audio =>
      simp only [finish]
      split <;> exact kept
    | pause => exact kept
    | _ => exact (Repairing.children_require ..).trans kept
  · rfl

theorem retainTimed_eq_filter (r : Repairing) (children : List Element) :
    (retainTimed r children).1 = children.filter isTimed := by
  induction children generalizing r with
  | nil => rfl
  | cons child rest ih =>
    rw [retainTimed]
    by_cases timed : isTimed child = true
    · rw [if_pos timed, List.filter_cons_of_pos timed, ← ih r]
    · rw [if_neg timed, List.filter_cons_of_neg timed]
      exact ih _

theorem children_checkContainer (e : Element) :
    (checkContainer e).element.children = e.children.map (·.filter isTimed) := by
  rw [checkContainer]
  cases found : e.children with
  | none => exact found
  | some children => exact congrArg some (retainTimed_eq_filter ..)

theorem weight_checkContainer_le (e : Element) : (checkContainer e).element.weight ≤ e.weight := by
  simp only [weight_eq, childList, children_checkContainer]
  cases e.children with
  | none => exact Nat.le_refl _
  | some children => exact Nat.add_le_add_left (totalWeight_filter_le _ children) 1

theorem weight_check_le (tag : Tag) (place : Place) (e : Element) :
    (tag.check place e).element.weight ≤ e.weight := by
  cases tag with
  | desc => simp only [check, checkDesc]; split <;> exact Nat.le_refl _
  | par => exact weight_checkContainer_le e
  | seq => exact weight_checkContainer_le e
  | speak => exact Nat.le_refl _
  | _ => exact Nat.le_of_eq (by simp only [check, weight_eq, childList, children_checkAttributes])

end Tag

theorem totalWeight_drop {children : List Element} {index : Nat} {e : Element} (h : children[index]? = some e) :
    totalWeight (children.drop index) = e.weight + totalWeight (children.drop (index + 1)) := by
  obtain ⟨lt, rfl⟩ := List.getElem?_eq_some_iff.1 h
  rw [List.drop_eq_getElem_cons lt, totalWeight]

theorem totalWeight_apply_lt {action : Action} {children : List Element} {index : Nat} {e : Element}
    (h : children[index]? = some e) (away : action.takesAway index children = true) :
    totalWeight ((action.apply index children).drop index) < totalWeight (children.drop index) := by
  obtain ⟨lt, -⟩ := List.getElem?_eq_some_iff.1 h
  have taken : (children.take index).length = index := List.length_take_of_le (Nat.le_of_lt lt)
  have positive := weight_eq e
  rw [totalWeight_drop h]
  cases action with
  | keep => simp [Action.takesAway, Action.removesElement] at away
  | remove =>
    simp only [Action.apply, h]
    rw [List.drop_left' taken]
    omega
  | unwrap =>
    simp only [Action.apply, h]
    rw [List.append_assoc, List.drop_left' taken, totalWeight_append]
    omega

theorem Action.apply_eq_self {action : Action} {children : List Element} {index : Nat}
    (stays : action.takesAway index children = false) : action.apply index children = children := by
  cases action with
  | keep => cases h : children[index]? <;> simp [Action.apply, h]
  | remove =>
    have : children[index]? = none := by simpa [Action.takesAway, Action.removesElement] using stays
    simp [Action.apply, this]
  | unwrap =>
    have : children[index]? = none := by simpa [Action.takesAway, Action.removesElement] using stays
    simp [Action.apply, this]

def pending (parent : Element) (index : Nat) : Nat :=
  totalWeight (parent.childList.drop index)

def Element.setChild (parent : Element) (index : Nat) (child : Element) : Element :=
  { parent with children := parent.children.map (·.set index child) }

theorem pending_setChild_succ (parent : Element) (index : Nat) (child : Element) :
    pending (parent.setChild index child) (index + 1) = pending parent (index + 1) := by
  cases h : parent.children with
  | none => simp [pending, Element.setChild, childList, h]
  | some children =>
    simp [pending, Element.setChild, childList, h, List.drop_set_of_lt (Nat.lt_succ_self index)]

theorem checkSlot_of_tag {target : Target} {parent : Element} {index : Nat} {children : List Element} {e : Element}
    {tag : Tag} (hc : parent.children = some children) (he : children[index]? = some e)
    (ht : Tag.ofName? e.name = some tag) :
    checkSlot target parent index =
      let outcome := tag.check (parent.placeOf index target) e
      let checked := children.set index outcome.element
      ⟨{ parent with children := some (outcome.action.apply index checked) },
        outcome.action.takesAway index checked, some ⟨index, e, some ⟨tag, outcome⟩⟩⟩ := by
  simp only [checkSlot, hc, he, ht]

theorem pending_checkSlot_lt {target : Target} {parent : Element} {index : Nat}
    (gone : (checkSlot target parent index).gone = true) :
    pending (checkSlot target parent index).parent index < pending parent index := by
  cases hc : parent.children with
  | none => simp [checkSlot, hc] at gone
  | some children =>
    cases he : children[index]? with
    | none => simp [checkSlot, hc, he] at gone
    | some e =>
      cases ht : Tag.ofName? e.name with
      | none => simp [checkSlot, hc, he, ht] at gone
      | some tag =>
        obtain ⟨lt, -⟩ := List.getElem?_eq_some_iff.1 he
        rw [checkSlot_of_tag hc he ht] at gone ⊢
        simp only [pending, childList, Option.getD_some, hc] at gone ⊢
        have found : (children.set index (tag.check (parent.placeOf index target) e).element)[index]? =
            some (tag.check (parent.placeOf index target) e).element := by
          simp [lt]
        refine Nat.lt_of_lt_of_le (totalWeight_apply_lt found gone) ?_
        rw [totalWeight_drop found, totalWeight_drop he, List.drop_set_of_lt (Nat.lt_succ_self index)]
        exact Nat.add_le_add_right (Tag.weight_check_le ..) _

/-- Where a check leaves an element in its slot, the element holds no more nodes than before, and what stands behind
it is the same. -/
theorem pending_of_stays {target : Target} {parent : Element} {index : Nat} {child : Element}
    (stays : (checkSlot target parent index).gone = false)
    (hchild : (checkSlot target parent index).parent.childList[index]? = some child) :
    child.weight + pending (checkSlot target parent index).parent (index + 1) ≤ pending parent index := by
  cases hc : parent.children with
  | none => simp [checkSlot, hc, childList] at hchild
  | some children =>
    have unchanged (visit : Option Visit) (h : checkSlot target parent index = ⟨parent, false, visit⟩) :
        child.weight + pending (checkSlot target parent index).parent (index + 1) ≤ pending parent index := by
      rw [h] at hchild ⊢
      exact Nat.le_of_eq (totalWeight_drop hchild).symm
    cases he : children[index]? with
    | none => exact unchanged none (by simp [checkSlot, hc, he])
    | some e =>
      cases ht : Tag.ofName? e.name with
      | none => exact unchanged (some ⟨index, e, none⟩) (by simp [checkSlot, hc, he, ht])
      | some tag =>
        obtain ⟨lt, -⟩ := List.getElem?_eq_some_iff.1 he
        rw [checkSlot_of_tag hc he ht] at stays hchild ⊢
        simp only [pending, childList, Option.getD_some, hc, Action.apply_eq_self stays] at hchild ⊢
        have same : (tag.check (parent.placeOf index target) e).element = child := by
          simpa [lt] using hchild
        rw [totalWeight_drop he, List.drop_set_of_lt (Nat.lt_succ_self index), ← same]
        exact Nat.add_le_add_right (Tag.weight_check_le ..) _

/-- Walks over the children of a node from a slot on. Gives the node as it is afterwards, and the visits in their
order. -/
def walkFrom (target : Target) (parent : Element) (index : Nat) : Element × List Visit :=
  if index < parent.childList.length then
    let slot := checkSlot target parent index
    if gone : slot.gone = true then
      have := pending_checkSlot_lt gone
      let (parent, later) := walkFrom target slot.parent index
      (parent, slot.visit.toList ++ later)
    else
      match found : slot.parent.childList[index]? with
      | none => (slot.parent, slot.visit.toList)
      | some child =>
        have := pending_of_stays (by simpa using gone) found
        let (walked, inner) := walkFrom target child 0
        let (parent, later) := walkFrom target (slot.parent.setChild index walked) (index + 1)
        (parent, slot.visit.toList ++ inner ++ later)
  else (parent, [])
termination_by pending parent index
decreasing_by
  · assumption
  · have := weight_eq child
    simp only [pending, List.drop_zero] at *
    omega
  · have := weight_pos child
    rw [pending_setChild_succ]
    omega

def walk (target : Target) (parent : Element) : Element × List Visit :=
  walkFrom target parent 0

end SpeechMarkup
