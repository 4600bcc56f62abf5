import SpeechMarkup.Proofs.Losses

/-! The walk round by round. The loops over children that are under way lie on a stack, and each round looks at one slot
or gives a finished node back to the loop around it. The nodes that no loop has passed yet become fewer with every
round, whatever the round does to the list of children; so the rounds end, and the last of them leaves what the walk
gives. No node of the document is looked at twice, and each one that is left was looked at. -/

namespace SpeechMarkup

open Element

/-- A loop over the children of a node: the node as it is now, and the slot that is next. -/
structure Loop where
  parent : Element
  index : Nat

/-- The loops after a look at a slot of the innermost one. It goes on at the same slot if the child there is gone, and
into the child otherwise. -/
def goOn (slot : SlotCheck) (index : Nat) (outer : List Loop) : List Loop :=
  if slot.gone then ⟨slot.parent, index⟩ :: outer
  else match slot.parent.childList[index]? with
    | none => ⟨slot.parent, index + 1⟩ :: outer
    | some child => ⟨child, 0⟩ :: ⟨slot.parent, index⟩ :: outer

def handBack (finished : Element) : List Loop → Option (List Loop)
  | [] => none
  | ⟨parent, index⟩ :: outer => some (⟨parent.setChild index finished, index + 1⟩ :: outer)

def round (target : Target) : List Loop → Option (List SlotCheck × List Loop)
  | [] => none
  | ⟨parent, index⟩ :: outer =>
    if index < parent.childList.length then
      let slot := checkSlot target parent index
      some ([slot], goOn slot index outer)
    else (handBack parent outer).map fun loops => ([], loops)

/-- So many rounds lead from some loops to others, with these looks. -/
inductive Rounds (target : Target) : Nat → List Loop → List SlotCheck → List Loop → Prop where
  | zero (loops : List Loop) : Rounds target 0 loops [] loops
  | succ {n : Nat} {loops next last : List Loop} {here later : List SlotCheck}
      (first : round target loops = some (here, next)) (rest : Rounds target n next later last) :
      Rounds target (n + 1) loops (here ++ later) last

section Round

variable {target : Target} {parent : Element} {index : Nat} {outer : List Loop}

theorem round_of_gone (inside : index < parent.childList.length) (gone : (checkSlot target parent index).gone = true) :
    round target (⟨parent, index⟩ :: outer) =
      some ([checkSlot target parent index], ⟨(checkSlot target parent index).parent, index⟩ :: outer) := by
  simp only [round, if_pos inside, goOn, if_pos gone]

theorem round_of_stays {child : Element} (inside : index < parent.childList.length)
    (stays : (checkSlot target parent index).gone = false)
    (found : (checkSlot target parent index).parent.childList[index]? = some child) :
    round target (⟨parent, index⟩ :: outer) =
      some ([checkSlot target parent index],
        ⟨child, 0⟩ :: ⟨(checkSlot target parent index).parent, index⟩ :: outer) := by
  simp only [round, if_pos inside, goOn, stays, Bool.false_eq_true, if_false, found]

theorem round_of_behind (behind : ¬index < parent.childList.length) : round target (⟨parent, index⟩ :: outer) =
    (handBack parent outer).map fun loops => ([], loops) := by
  rw [round, if_neg behind]

theorem exists_child_of_inside (inside : index < parent.childList.length) :
    ∃ children e, parent.children = some children ∧ children[index]? = some e := by
  cases has : parent.children with
  | none => simp [childList, has] at inside
  | some children =>
    rw [childList, has, Option.getD_some] at inside
    exact ⟨children, children[index], rfl, List.getElem?_eq_getElem inside⟩

theorem exists_visit_checkSlot (target : Target) (inside : index < parent.childList.length) :
    ∃ visit, (checkSlot target parent index).visit = some visit := by
  obtain ⟨children, e, has, found⟩ := exists_child_of_inside inside
  cases known : Tag.ofName? e.name with
  | none => exact ⟨_, by rw [checkSlot_of_unknown target has found known]⟩
  | some tag => exact ⟨_, by rw [checkSlot_of_tag has found known]⟩

theorem exists_child_of_stays (inside : index < parent.childList.length)
    (stays : (checkSlot target parent index).gone = false) :
    ∃ child, (checkSlot target parent index).parent.childList[index]? = some child := by
  obtain ⟨children, e, has, found⟩ := exists_child_of_inside inside
  obtain ⟨within, -⟩ := List.getElem?_eq_some_iff.1 found
  cases known : Tag.ofName? e.name with
  | none =>
    rw [checkSlot_of_unknown target has found known, childList, has]
    exact ⟨e, found⟩
  | some tag =>
    rw [checkSlot_of_tag has found known] at stays ⊢
    refine ⟨(tag.check (parent.placeOf index target) e).element, ?_⟩
    simp only [childList, Option.getD_some, Action.apply_eq_self stays]
    simp [within]

end Round

/-- The work of the loops that wait for the loop inside them: they have passed the slot of the child that it is in. -/
def waiting : List Loop → Nat
  | [] => 0
  | ⟨parent, index⟩ :: outer => 2 * pending parent (index + 1) + 1 + waiting outer

/-- Twice the nodes that no loop has passed, and one more for each loop. -/
def work : List Loop → Nat
  | [] => 0
  | ⟨parent, index⟩ :: outer => 2 * pending parent index + 1 + waiting outer

section Work

variable {target : Target} {loops next last : List Loop} {calls : List SlotCheck}

theorem work_round_lt (h : round target loops = some (calls, next)) : 0 < work next ∧ work next < work loops := by
  cases loops with
  | nil => cases h
  | cons loop outer =>
    obtain ⟨parent, index⟩ := loop
    by_cases inside : index < parent.childList.length
    · cases gone : (checkSlot target parent index).gone with
      | true =>
        have fewer := pending_checkSlot_lt gone
        rw [round_of_gone inside gone] at h
        cases h
        simp only [work]
        omega
      | false =>
        obtain ⟨child, found⟩ := exists_child_of_stays inside gone
        have split := pending_of_stays gone found
        have child_weight := weight_eq child
        rw [round_of_stays inside gone found] at h
        cases h
        simp only [work, waiting, pending, List.drop_zero] at split ⊢
        omega
    · rw [round_of_behind inside] at h
      obtain ⟨loops, back, same⟩ := Option.map_eq_some_iff.1 h
      cases same
      cases outer with
      | nil => cases back
      | cons around outer =>
        obtain ⟨around, slot⟩ := around
        cases back
        have behind := pending_setChild_succ around slot parent
        simp only [work, waiting, behind]
        omega

theorem rounds_lt_work {n : Nat} (run : Rounds target n loops calls last) (begun : 0 < work loops) :
    n < work loops := by
  induction run with
  | zero => exact begun
  | succ first _ ih =>
    obtain ⟨left, less⟩ := work_round_lt first
    have fewer := ih left
    omega

theorem Rounds.trans {m n : Nat} {loops middle last : List Loop} {calls later : List SlotCheck}
    (run : Rounds target m loops calls middle) (rest : Rounds target n middle later last) :
    Rounds target (m + n) loops (calls ++ later) last := by
  induction run with
  | zero => simpa using rest
  | succ first _ ih =>
    rw [List.append_assoc, Nat.add_right_comm]
    exact .succ first (ih rest)

end Work

/-- The rounds of a loop come to what the walk from its slot on comes to, whatever loops are around it. -/
theorem exists_rounds_walkFrom (target : Target) (parent : Element) (index : Nat) (outer : List Loop) :
    ∃ n calls stop,
      Rounds target n (⟨parent, index⟩ :: outer) calls (⟨(walkFrom target parent index).1, stop⟩ :: outer) ∧
      (walkFrom target parent index).1.childList.length ≤ stop ∧
      calls.map SlotCheck.visit = (walkFrom target parent index).2.map some := by
  fun_induction walkFrom target parent index generalizing outer with
  | case1 parent index inside slot gone less after later walked ih =>
    obtain ⟨n, calls, stop, run, behind, same⟩ := ih outer
    obtain ⟨visit, looked⟩ := exists_visit_checkSlot target inside
    rw [walked] at run behind same
    refine ⟨n + 1, _, stop, .succ (round_of_gone inside gone) run, behind, ?_⟩
    simp [slot, looked, same]
  | case2 parent index inside slot gone missing =>
    obtain ⟨child, found⟩ := exists_child_of_stays inside (Bool.eq_false_iff.2 gone)
    rw [found] at missing
    cases missing
  | case3 parent index inside slot gone child found less walkedChild inner walked after later rest ihChild ihRest =>
    obtain ⟨n, calls, stop, run, behind, same⟩ := ihChild (⟨slot.parent, index⟩ :: outer)
    obtain ⟨m, calls', stop', run', behind', same'⟩ := ihRest outer
    obtain ⟨visit, looked⟩ := exists_visit_checkSlot target inside
    have stays := Bool.eq_false_iff.2 gone
    rw [walked] at run behind same
    rw [rest] at run' behind' same'
    have back : round target (⟨walkedChild, stop⟩ :: ⟨slot.parent, index⟩ :: outer) =
        some ([], ⟨slot.parent.setChild index walkedChild, index + 1⟩ :: outer) :=
      round_of_behind (Nat.not_lt.2 behind)
    refine ⟨_, _, stop', .succ (round_of_stays inside stays found) (run.trans (.succ back run')), behind', ?_⟩
    simp [slot, looked, same, same']
  | case4 parent index behind => exact ⟨0, [], index, .zero _, Nat.not_lt.1 behind, rfl⟩

theorem length_occurrences (parent : String) (index : Nat) (nodes : List Element) :
    (occurrences parent index nodes).length = totalWeight nodes := by
  fun_induction occurrences parent index nodes with
  | case1 parent index => rfl
  | case2 parent index e rest ihInside ihBehind =>
    rw [List.length_cons, List.length_append, ihInside, ihBehind, totalWeight, weight_eq]
    omega

/-- No run of rounds over the inside of a node is longer than twice the nodes there, and one of the runs comes to its
end with what the walk gives. It looks at the nodes in the order of the text and at none of them twice, and each node
that is left in the end was looked at once. -/
theorem exists_rounds_walk (target : Target) (e : Element) :
    (∀ n calls loops, Rounds target n [⟨e, 0⟩] calls loops → n ≤ 2 * e.descendants.length) ∧
      ∃ n calls last, Rounds target n [⟨e, 0⟩] calls [last] ∧ round target [last] = none ∧
        last.parent = (walk target e).1 ∧ calls.map SlotCheck.visit = (walk target e).2.map some ∧
        calls.length ≤ e.descendants.length ∧
        ((walk target e).2.map Visit.found).Sublist (e.descendants.map Occurrence.node) ∧
        List.Forall₂ (Judged target) (walk target e).1.descendants ((walk target e).2.filter Visit.stays) := by
  have counted : pending e 0 = e.descendants.length := by
    rw [pending, List.drop_zero, descendants, length_occurrences]
  refine ⟨fun n calls loops run => ?_, ?_⟩
  · have started : work [⟨e, 0⟩] = 2 * e.descendants.length + 1 := by simp only [work, waiting, counted]
    have fewer := rounds_lt_work run (by omega)
    omega
  · obtain ⟨n, calls, stop, run, behind, visits⟩ := exists_rounds_walkFrom target e 0 []
    have found := sublist_found_walk target e
    have looks : calls.length = (walk target e).2.length := by
      rw [walk, ← List.length_map SlotCheck.visit, visits, List.length_map]
    refine ⟨n, calls, ⟨(walk target e).1, stop⟩, run, round_of_behind (Nat.not_lt.2 behind), rfl, visits, ?_, found,
      judged_walk target e⟩
    rw [looks]
    simpa using found.length_le

end SpeechMarkup
