import SpeechMarkup.Proofs.Occurrence

/-! The check of one slot. It edits the slot and nothing around it: the parent keeps what it has beside its children,
the siblings stay as they are, and the records of earlier checks stay before those of this one. So the checks of two
slots do not see each other, and come to the same in either order. -/

namespace SpeechMarkup

open Element

namespace Tag

/-- What a rule may change in an element: its attributes, or of a timed container the list of its children. -/
structure Edits (tag : Tag) (e : Element) (outcome : Outcome) : Prop where
  attributes : tag ≠ par → tag ≠ seq → outcome.element = { e with attributes := outcome.element.attributes }
  children : tag = par ∨ tag = seq → outcome.element = { e with
    children := e.children.map (·.filter fun child => child.name ∈ ["par", "seq", "media"]) }
  dropped : tag = par ∨ tag = seq → outcome.violations =
    (e.childList.filter fun child => child.name ∉ ["par", "seq", "media"]).map fun child =>
      .disallowedChild e.name (childLabel child)

theorem check_edits (tag : Tag) (place : Place) (e : Element) : tag.Edits e (tag.check place e) := by
  have timed : isTimed = fun child => decide (child.name ∈ ["par", "seq", "media"]) := by
    funext child
    rw [Bool.eq_iff_iff, isTimed_iff, decide_eq_true_iff]
  have container : (planContainer e).element = { e with
      children := e.children.map (·.filter fun child => child.name ∈ ["par", "seq", "media"]) } := by
    rw [planContainer, timed]
  have refused : (planContainer e).outcome.violations =
      (e.childList.filter fun child => child.name ∉ ["par", "seq", "media"]).map fun child =>
        .disallowedChild e.name (childLabel child) := by
    simp [planContainer, Plan.violations_outcome, timed, Repair.violation, Function.comp_def]
  constructor
  case attributes =>
    intro notPar notSeq
    obtain ⟨attributes, changed⟩ := exists_check_element tag place e
    rw [if_neg (not_or.2 ⟨notPar, notSeq⟩)] at changed
    rw [changed]
  case children =>
    rw [check_eq_plan]
    rintro (rfl | rfl) <;> exact container
  case dropped =>
    rw [check_eq_plan]
    rintro (rfl | rfl) <;> exact refused

end Tag

/-- What a check puts into the slot of an element, with its records, and whether the element is gone. -/
structure Change where
  nodes : List Element
  records : List Violation
  gone : Bool

def Element.change (target : Target) (parent : String) (index : Nat) (e : Element) : Change :=
  match Tag.ofName? e.name with
  | none => ⟨[e], [], false⟩
  | some tag =>
    let outcome := tag.check (.under target parent index) e
    match outcome.action with
    | .keep => ⟨[outcome.element], outcome.violations, false⟩
    | .remove => ⟨[], outcome.violations, true⟩
    | .unwrap => ⟨e.childList, outcome.violations, true⟩

section Slot

variable {parent e : Element} {done rest : List Element} (target : Target) (records : List Violation)

theorem checkElement_middle (listed : parent.children = some (done ++ e :: rest)) :
    checkElement target parent done.length records =
      let change := e.change target parent.name done.length
      ⟨{ parent with children := some (done ++ change.nodes ++ rest) }, records ++ change.records, change.gone⟩ := by
  have found : (done ++ e :: rest)[done.length]? = some e := by simp
  cases known : Tag.ofName? e.name with
  | none =>
    rw [checkElement, checkSlot_of_unknown target listed found known]
    simp [change, known, Visit.violations, ← listed]
  | some tag =>
    cases action : (tag.check (.under target parent.name done.length) e).action with
    | keep =>
      rw [checkElement, checkSlot_of_keep listed known action]
      simp [change, known, action, Visit.violations]
    | remove =>
      rw [checkElement, checkSlot_of_remove listed known action]
      simp [change, known, action, Visit.violations]
    | unwrap =>
      rw [checkElement, checkSlot_of_unwrap listed known action]
      simp [change, known, action, Visit.violations]

theorem checkElement_of_vacant {index : Nat} (vacant : parent.childList[index]? = none) :
    checkElement target parent index records = ⟨parent, records, false⟩ := by
  have untouched : checkSlot target parent index = ⟨parent, false, none⟩ := by
    unfold checkSlot
    cases listed : parent.children with
    | none => rfl
    | some children =>
      rw [childList, listed, Option.getD_some] at vacant
      simp [vacant]
  simp [checkElement, untouched]

theorem exists_children_eq {index : Nat} (found : parent.childList[index]? = some e) :
    ∃ done rest, parent.children = some (done ++ e :: rest) ∧ done.length = index := by
  cases listed : parent.children with
  | none => simp [childList, listed] at found
  | some children =>
    rw [childList, listed, Option.getD_some] at found
    obtain ⟨inside, same⟩ := List.getElem?_eq_some_iff.1 found
    refine ⟨children.take index, children.drop (index + 1), ?_, List.length_take_of_le inside.le⟩
    rw [← same, List.getElem_cons_drop, List.take_append_drop]

end Slot

/-- There is a child in the slot, and its tag is known: what the rule makes of it under the name of the parent. -/
structure RuledSlot (target : Target) (parent : Element) (index : Nat) (e : Element) (outcome : Outcome) : Prop where
  found : parent.childList[index]? = some e
  ruled : ∃ tag, Tag.ofName? e.name = some tag ∧ outcome = tag.check (.under target parent.name index) e ∧
    tag.Edits e outcome

/-- What the check of a slot may come to. -/
inductive SlotEdit (target : Target) (parent : Element) (index : Nat) (records : List Violation) :
    ElementCheck → Prop
  | untouched (unruled : ∀ e, parent.childList[index]? = some e → Tag.ofName? e.name = none) :
      SlotEdit target parent index records ⟨parent, records, false⟩
  | kept {e : Element} {outcome : Outcome} (slot : RuledSlot target parent index e outcome)
      (action : outcome.action = .keep) :
      SlotEdit target parent index records
        ⟨{ parent with
            children := some (parent.childList.take index ++ [outcome.element] ++ parent.childList.drop (index + 1)) },
          records ++ outcome.violations, false⟩
  | removed {e : Element} {outcome : Outcome} (slot : RuledSlot target parent index e outcome)
      (action : outcome.action = .remove) :
      SlotEdit target parent index records
        ⟨{ parent with children := some (parent.childList.take index ++ parent.childList.drop (index + 1)) },
          records ++ outcome.violations, true⟩
  | unwrapped {e : Element} {outcome : Outcome} (slot : RuledSlot target parent index e outcome)
      (action : outcome.action = .unwrap) :
      SlotEdit target parent index records
        ⟨{ parent with
            children := some (parent.childList.take index ++ e.childList ++ parent.childList.drop (index + 1)) },
          records ++ outcome.violations, true⟩

section Frame

variable {target : Target} {parent : Element} {index : Nat} {records : List Violation}

theorem slotEdit_checkElement (target : Target) (parent : Element) (index : Nat) (records : List Violation) :
    SlotEdit target parent index records (checkElement target parent index records) := by
  cases found : parent.childList[index]? with
  | none =>
    rw [checkElement_of_vacant target records found]
    exact .untouched fun e same => absurd (found.symm.trans same) (Option.some_ne_none e).symm
  | some e =>
    obtain ⟨done, rest, listed, rfl⟩ := exists_children_eq found
    have before : parent.childList.take done.length = done := by simp [childList, listed]
    have behind : parent.childList.drop (done.length + 1) = rest := by simp [childList, listed]
    rw [checkElement_middle target records listed]
    cases known : Tag.ofName? e.name with
    | none =>
      have unruled (other : Element) (same : parent.childList[done.length]? = some other) :
          Tag.ofName? other.name = none := by
        cases found.symm.trans same
        exact known
      have edit : SlotEdit target parent done.length records _ := .untouched unruled
      simpa [change, known, ← listed] using edit
    | some tag =>
      have slot : RuledSlot target parent done.length e (tag.check (.under target parent.name done.length) e) :=
        ⟨found, tag, known, rfl, tag.check_edits _ e⟩
      cases action : (tag.check (.under target parent.name done.length) e).action with
      | keep =>
        have edit : SlotEdit target parent done.length records _ := .kept slot action
        rw [before, behind] at edit
        simpa only [change, known, action] using edit
      | remove =>
        have edit : SlotEdit target parent done.length records _ := .removed slot action
        rw [before, behind] at edit
        simpa only [change, known, action, List.append_nil] using edit
      | unwrap =>
        have edit : SlotEdit target parent done.length records _ := .unwrapped slot action
        rw [before, behind] at edit
        simpa only [change, known, action] using edit

theorem SlotEdit.records_prefix {after : ElementCheck} (h : SlotEdit target parent index records after) :
    records <+: after.records := by
  cases h with
  | untouched => exact List.prefix_rfl
  | kept | removed | unwrapped => exact List.prefix_append ..

theorem SlotEdit.parent_eq {after : ElementCheck} (h : SlotEdit target parent index records after) :
    after.parent = { parent with children := after.parent.children } := by
  cases h with
  | untouched => exact parent.eta.symm
  | kept | removed | unwrapped => rfl

/-- The check of a slot edits this slot only. Earlier records stay in front; the parent keeps all but its list of
children; and of that list only the child in the slot changes, as its rule says: without a rule nothing does. -/
theorem checkElement_edits_slot (target : Target) (parent : Element) (index : Nat) (records : List Violation) :
    let after := checkElement target parent index records
    records <+: after.records ∧ after.parent = { parent with children := after.parent.children } ∧
      SlotEdit target parent index records after := by
  intro after
  have edit := slotEdit_checkElement target parent index records
  exact ⟨edit.records_prefix, edit.parent_eq, edit⟩

end Frame

/-! An index comes into a rule in one place: it is told by the identifier that a media element gets for a bad one. -/

theorem judge_media_congr {i j : Nat} {platform : Platform} {attr value : String}
    (h : attr = "xml:id" → isIdentifier value.toList = true) :
    judge (Grammar.media i) platform attr value = judge (Grammar.media j) platform attr value := by
  by_cases id : attr = "xml:id"
  · subst id
    simp [judge, Grammar.media, AttributeRule.accepts, Form.accepts, h rfl]
  · simp [judge, Grammar.media, List.lookup_cons, beq_false_of_ne id]

namespace Tag

variable {tag : Tag} {place place' : Place} {attributes : Attributes}

theorem repairAttributes_congr (h : ∀ entry ∈ attributes.entries,
    judge (tag.grammar place attributes) place.target.platform entry.1 entry.2 =
      judge (tag.grammar place' attributes) place'.target.platform entry.1 entry.2) :
    tag.repairAttributes place attributes = tag.repairAttributes place' attributes := by
  apply Prod.ext
  · apply Dictionary.ext
    exact List.filterMap_congr fun entry mem => by simp only [h entry mem]
  · exact List.filterMap_congr fun entry mem => by simp only [h entry (mem_inOrder.1 mem)]

theorem check_congr_index {target : Target} {parent : String} {i j : Nat} {e : Element}
    (h : tag = media → ∀ id, e.attributes.get? "xml:id" = some id → isIdentifier id.toList = true) :
    tag.check (.under target parent i) e = tag.check (.under target parent j) e := by
  cases tag with
  | media =>
    have same : media.repairAttributes (.under target parent i) e.attributes =
        media.repairAttributes (.under target parent j) e.attributes := by
      refine repairAttributes_congr fun entry mem => judge_media_congr fun id => h rfl entry.2 ?_
      exact Dictionary.get?_eq_some_iff.2 (id ▸ mem)
    rw [check_eq_plan, check_eq_plan]
    simp only [plan, planAttributes, same]
    rfl
  | _ => rfl

end Tag

theorem Element.change_congr_index {target : Target} {parent : String} {i j : Nat} {e : Element}
    (h : e.name = "media" → ∀ id, e.attributes.get? "xml:id" = some id → isIdentifier id.toList = true) :
    e.change target parent i = e.change target parent j := by
  cases known : Tag.ofName? e.name with
  | none => simp only [change, known]
  | some tag =>
    have same : tag.check (.under target parent i) e = tag.check (.under target parent j) e := by
      refine Tag.check_congr_index fun media => h ?_
      subst media
      exact Tag.eq_name_of_ofName? known rfl
    simp only [change, known, same]

theorem exists_children_eq_of_lt {parent : Element} {i j : Nat} (order : i < j) (inside : j < parent.childList.length) :
    ∃ before x between y behind, parent.children = some (before ++ x :: (between ++ y :: behind)) ∧
      before.length = i ∧ (before ++ x :: between).length = j := by
  obtain ⟨x, found⟩ : ∃ x, parent.childList[i]? = some x := ⟨_, List.getElem?_eq_getElem (order.trans inside)⟩
  obtain ⟨before, rest, listed, rfl⟩ := exists_children_eq found
  have offset : j - before.length - 1 < rest.length := by
    simp only [Element.childList, listed, Option.getD_some, List.length_append, List.length_cons] at inside
    omega
  refine ⟨before, x, rest.take (j - before.length - 1), rest[j - before.length - 1],
    rest.drop (j - before.length - 1 + 1), ?_, rfl, ?_⟩
  · rw [listed, List.getElem_cons_drop, List.take_append_drop]
  · simp only [List.length_append, List.length_cons, List.length_take]
    omega

/-- The checks of two slots, in either order: the same tree, the same fate of each element, and the same records of
each, those of the first check in front. After the slot on the left was checked the other one has moved as far as
the list has grown. -/
theorem checkElement_comm (target : Target) (parent : Element) (i j : Nat) (records : List Violation) (order : i < j)
    (inside : j < parent.childList.length)
    (identified : ∀ y, parent.childList[j]? = some y → y.name = "media" →
      ∀ id, y.attributes.get? "xml:id" = some id → isIdentifier id.toList = true) :
    let right := checkElement target parent j records
    let rightLeft := checkElement target right.parent i right.records
    let left := checkElement target parent i records
    let growth : Int := left.parent.childList.length - parent.childList.length
    let leftRight := checkElement target left.parent (j + growth).toNat left.records
    rightLeft.parent = leftRight.parent ∧ right.gone = leftRight.gone ∧ rightLeft.gone = left.gone ∧
      ∃ ofLeft ofRight, right.records = records ++ ofRight ∧ rightLeft.records = records ++ ofRight ++ ofLeft ∧
        left.records = records ++ ofLeft ∧ leftRight.records = records ++ ofLeft ++ ofRight := by
  intro right rightLeft left growth leftRight
  obtain ⟨before, x, between, y, behind, listed, rfl, rfl⟩ := exists_children_eq_of_lt order inside
  have found : parent.childList[(before ++ x :: between).length]? = some y := by
    simp [Element.childList, listed]
  let first := x.change target parent.name before.length
  let second := y.change target parent.name (before ++ x :: between).length
  have rightEq : right = ⟨{ parent with children := some (before ++ x :: (between ++ second.nodes ++ behind)) },
      records ++ second.records, second.gone⟩ := by
    have cut : parent.children = some ((before ++ x :: between) ++ y :: behind) := by simpa using listed
    simpa [right, second] using checkElement_middle target records cut
  have rightLeftEq : rightLeft =
      ⟨{ parent with children := some (before ++ first.nodes ++ (between ++ second.nodes ++ behind)) },
        records ++ second.records ++ first.records, first.gone⟩ := by
    simp only [rightLeft, rightEq]
    exact checkElement_middle target _ rfl
  have leftEq : left = ⟨{ parent with children := some (before ++ first.nodes ++ (between ++ y :: behind)) },
      records ++ first.records, first.gone⟩ := checkElement_middle target records listed
  have moved : (((before ++ x :: between).length : Int) + growth).toNat =
      (before ++ first.nodes ++ between).length := by
    simp only [growth, leftEq, Element.childList, listed, Option.getD_some, List.length_append, List.length_cons]
    omega
  have unmoved : y.change target parent.name (before ++ first.nodes ++ between).length = second :=
    Element.change_congr_index (identified y found)
  have leftRightEq : leftRight =
      ⟨{ parent with children := some (before ++ first.nodes ++ between ++ second.nodes ++ behind) },
        records ++ first.records ++ second.records, second.gone⟩ := by
    simp only [leftRight, moved, leftEq]
    rw [← List.append_assoc, checkElement_middle target _ rfl]
    simp only [unmoved]
  refine ⟨?_, ?_, ?_, first.records, second.records, ?_, ?_, ?_, ?_⟩
  · simp [rightLeftEq, leftRightEq]
  · rw [rightEq, leftRightEq]
  · rw [rightLeftEq, leftEq]
  · rw [rightEq]
  · rw [rightLeftEq]
  · rw [leftEq]
  · rw [leftRightEq]

/-- On the left two children come out of an element, on the right a recording goes. -/
theorem checkElement_comm_unwrap_remove :
    let target : Target := { platform := .amazon, locale := .deDE }
    let parent : Element := { name := "speak", children := some [
      { name := "amazon:emotion", children := some [.ofText "a", .ofText "b"] }, { name := "audio" }] }
    let right := checkElement target parent 1 []
    let rightLeft := checkElement target right.parent 0 right.records
    let left := checkElement target parent 0 []
    let leftRight := checkElement target left.parent 2 left.records
    left.parent.childList.length = 3 ∧ rightLeft.parent = leftRight.parent ∧ right.gone = leftRight.gone ∧
      rightLeft.gone = left.gone ∧
      rightLeft.records = [.missingRequired "audio", .missingRequired "amazon:emotion"] ∧
      leftRight.records = [.missingRequired "amazon:emotion", .missingRequired "audio"] := by
  intro target parent right rightLeft left leftRight
  obtain ⟨tree, ofRight, ofLeft, -⟩ := checkElement_comm target parent 0 1 [] (by decide) (by decide)
    fun y found media => by cases found; exact absurd media (by decide)
  exact ⟨rfl, tree, ofRight, ofLeft, by decide +kernel, by decide +kernel⟩

end SpeechMarkup
