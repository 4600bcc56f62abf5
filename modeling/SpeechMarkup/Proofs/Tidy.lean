import SpeechMarkup.Check.Walk
import SpeechMarkup.Proofs.RuleOutcome

/-! The walk told by recursion on the list of children instead of an index into it. The index loop computes the same
nodes and the same visits: before the index everything is final, behind it everything is as it was found. -/

namespace SpeechMarkup

open Element

/-- The nodes that are left of a list of nodes, and the visits that were paid to it. -/
structure Tidied where
  nodes : List Element
  visits : List Visit

def Tidied.violations (tidied : Tidied) : List Violation :=
  tidied.visits.flatMap Visit.violations

/-- Puts other nodes in the place of the children, if there is a place for them. -/
def Element.withNodes (e : Element) (nodes : List Element) : Element :=
  { e with children := e.children.map fun _ => nodes }

theorem totalWeight_cons_lt (e : Element) (rest : List Element) : totalWeight rest < totalWeight (e :: rest) := by
  have := weight_pos e
  simp only [totalWeight]
  omega

theorem totalWeight_unwrap_lt (e : Element) (rest : List Element) :
    totalWeight (e.childList ++ rest) < totalWeight (e :: rest) := by
  have := weight_eq e
  simp only [totalWeight, totalWeight_append]
  omega

theorem totalWeight_checked_lt (tag : Tag) (place : Place) (e : Element) (rest : List Element) :
    totalWeight (tag.check place e).element.childList < totalWeight (e :: rest) := by
  have := tag.weight_check_le place e
  have := weight_eq (tag.check place e).element
  simp only [totalWeight]
  omega

/-- Tidies up the children of a node with this name, the first of which has this index. -/
def tidy (target : Target) (parent : String) (index : Nat) : List Element → Tidied
  | [] => ⟨[], []⟩
  | e :: rest =>
    match Tag.ofName? e.name with
    | none =>
      let inner := tidy target e.name 0 e.childList
      let later := tidy target parent (index + 1) rest
      ⟨e.withNodes inner.nodes :: later.nodes, ⟨index, e, none⟩ :: (inner.visits ++ later.visits)⟩
    | some tag =>
      let outcome := tag.check (.under target parent index) e
      let visit : Visit := ⟨index, e, some ⟨tag, outcome⟩⟩
      match outcome.action with
      | .remove =>
        let later := tidy target parent index rest
        ⟨later.nodes, visit :: later.visits⟩
      | .unwrap =>
        let later := tidy target parent index (e.childList ++ rest)
        ⟨later.nodes, visit :: later.visits⟩
      | .keep =>
        let inner := tidy target e.name 0 outcome.element.childList
        let later := tidy target parent (index + 1) rest
        ⟨outcome.element.withNodes inner.nodes :: later.nodes, visit :: (inner.visits ++ later.visits)⟩
termination_by nodes => totalWeight nodes
decreasing_by
  · have := weight_eq e
    simp only [totalWeight]
    omega
  · exact totalWeight_cons_lt e rest
  · exact totalWeight_cons_lt e rest
  · exact totalWeight_unwrap_lt e rest
  · exact totalWeight_checked_lt ..
  · exact totalWeight_cons_lt e rest

section Equations

variable {target : Target} {parent : String} {index : Nat} {e : Element} {rest : List Element} {tag : Tag}

theorem tidy_of_unknown (unknown : Tag.ofName? e.name = none) : tidy target parent index (e :: rest) =
    let inner := tidy target e.name 0 e.childList
    let later := tidy target parent (index + 1) rest
    ⟨e.withNodes inner.nodes :: later.nodes, ⟨index, e, none⟩ :: (inner.visits ++ later.visits)⟩ := by
  rw [tidy]
  simp only [unknown]

theorem tidy_of_remove (known : Tag.ofName? e.name = some tag)
    (action : (tag.check (.under target parent index) e).action = .remove) : tidy target parent index (e :: rest) =
      let later := tidy target parent index rest
      ⟨later.nodes, ⟨index, e, some ⟨tag, tag.check (.under target parent index) e⟩⟩ :: later.visits⟩ := by
  rw [tidy]
  simp only [known, action]

theorem tidy_of_unwrap (known : Tag.ofName? e.name = some tag)
    (action : (tag.check (.under target parent index) e).action = .unwrap) : tidy target parent index (e :: rest) =
      let later := tidy target parent index (e.childList ++ rest)
      ⟨later.nodes, ⟨index, e, some ⟨tag, tag.check (.under target parent index) e⟩⟩ :: later.visits⟩ := by
  rw [tidy]
  simp only [known, action]

theorem tidy_of_keep (known : Tag.ofName? e.name = some tag)
    (action : (tag.check (.under target parent index) e).action = .keep) : tidy target parent index (e :: rest) =
      let outcome := tag.check (.under target parent index) e
      let inner := tidy target e.name 0 outcome.element.childList
      let later := tidy target parent (index + 1) rest
      ⟨outcome.element.withNodes inner.nodes :: later.nodes,
        ⟨index, e, some ⟨tag, outcome⟩⟩ :: (inner.visits ++ later.visits)⟩ := by
  rw [tidy]
  simp only [known, action]

end Equations

theorem checkSlot_of_unknown (target : Target) {parent : Element} {index : Nat} {children : List Element} {e : Element}
    (hc : parent.children = some children) (he : children[index]? = some e) (ht : Tag.ofName? e.name = none) :
    checkSlot target parent index = ⟨parent, false, some ⟨index, e, none⟩⟩ := by
  simp only [checkSlot, hc, he, ht]

section Steps

variable {target : Target} {parent after : Element} {index : Nat} {visit : Option Visit}

theorem walkFrom_of_gone (inside : index < parent.childList.length)
    (slot : checkSlot target parent index = ⟨after, true, visit⟩) :
    walkFrom target parent index =
      ((walkFrom target after index).1, visit.toList ++ (walkFrom target after index).2) := by
  rw [walkFrom, if_pos inside]
  simp only [slot, dif_pos]

theorem walkFrom_of_stays {child : Element} (inside : index < parent.childList.length)
    (slot : checkSlot target parent index = ⟨after, false, visit⟩) (found : after.childList[index]? = some child) :
    walkFrom target parent index =
      ((walkFrom target (after.setChild index (walk target child).1) (index + 1)).1,
        visit.toList ++ (walk target child).2 ++
          (walkFrom target (after.setChild index (walk target child).1) (index + 1)).2) := by
  rw [walkFrom, if_pos inside]
  simp only [slot, Bool.false_eq_true, dif_neg, not_false_eq_true, walk]
  split
  · next missing =>
    rw [slot, found] at missing
    cases missing
  · next child' same =>
    rw [slot, found] at same
    cases same
    rfl

end Steps

theorem withNodes_childList (e : Element) : e.withNodes e.childList = e := by
  obtain ⟨_, _, _, _ | _, _⟩ := e <;> rfl

theorem childList_withNodes {e : Element} {f : List Element → List Element} (h : f [] = []) :
    (e.withNodes (f e.childList)).childList = f e.childList := by
  obtain ⟨_, _, _, _ | _, _⟩ := e
  · exact h.symm
  · rfl

section Loop

variable {target : Target} {parent e : Element} {done rest : List Element} {tag : Tag}

theorem checkSlot_middle (target : Target) (hc : parent.children = some (done ++ e :: rest))
    (ht : Tag.ofName? e.name = some tag) :
    checkSlot target parent done.length =
      let outcome := tag.check (.under target parent.name done.length) e
      let checked := done ++ outcome.element :: rest
      ⟨{ parent with children := some (outcome.action.apply done.length checked) },
        outcome.action.removesElement, some ⟨done.length, e, some ⟨tag, outcome⟩⟩⟩ := by
  have found : (done ++ e :: rest)[done.length]? = some e := by simp
  have place : parent.placeOf done.length target = .under target parent.name done.length := rfl
  rw [checkSlot_of_tag hc found ht, place]
  simp [List.set_append_right, Action.takesAway]

theorem checkSlot_of_keep (hc : parent.children = some (done ++ e :: rest)) (ht : Tag.ofName? e.name = some tag)
    (action : (tag.check (.under target parent.name done.length) e).action = .keep) :
    checkSlot target parent done.length =
      let outcome := tag.check (.under target parent.name done.length) e
      ⟨{ parent with children := some (done ++ outcome.element :: rest) }, false,
        some ⟨done.length, e, some ⟨tag, outcome⟩⟩⟩ := by
  rw [checkSlot_middle target hc ht]
  simp [action, Action.apply, Action.removesElement]

theorem checkSlot_of_remove (hc : parent.children = some (done ++ e :: rest)) (ht : Tag.ofName? e.name = some tag)
    (action : (tag.check (.under target parent.name done.length) e).action = .remove) :
    checkSlot target parent done.length =
      ⟨{ parent with children := some (done ++ rest) }, true,
        some ⟨done.length, e, some ⟨tag, tag.check (.under target parent.name done.length) e⟩⟩⟩ := by
  rw [checkSlot_middle target hc ht]
  simp [action, Action.apply, Action.removesElement]

theorem checkSlot_of_unwrap (hc : parent.children = some (done ++ e :: rest)) (ht : Tag.ofName? e.name = some tag)
    (action : (tag.check (.under target parent.name done.length) e).action = .unwrap) :
    checkSlot target parent done.length =
      ⟨{ parent with children := some (done ++ (e.childList ++ rest)) }, true,
        some ⟨done.length, e, some ⟨tag, tag.check (.under target parent.name done.length) e⟩⟩⟩ := by
  have same := Tag.check_of_unwrap action
  rw [checkSlot_middle target hc ht]
  simp [action, same, Action.apply, Action.removesElement]

end Loop

/-- The index loop does its work: what stands before the index stays, and what stands from it on is tidied up. -/
def LoopTidies (target : Target) (name : String) (index : Nat) (rest : List Element) : Prop :=
  ∀ (parent : Element) (done : List Element), parent.name = name → done.length = index →
    parent.children = some (done ++ rest) →
      walkFrom target parent index =
        ({ parent with children := some (done ++ (tidy target name index rest).nodes) },
          (tidy target name index rest).visits)

theorem LoopTidies.walk {target : Target} {name : String} {e : Element} (same : e.name = name)
    (loop : LoopTidies target name 0 e.childList) :
    walk target e = (e.withNodes (tidy target name 0 e.childList).nodes, (tidy target name 0 e.childList).visits) := by
  cases hc : e.children with
  | none =>
    have empty : e.childList = [] := by rw [childList, hc]; rfl
    have walked : SpeechMarkup.walk target e = (e, []) := by
      rw [SpeechMarkup.walk, walkFrom, empty]
      rfl
    rw [walked, empty, tidy, ← empty, withNodes_childList]
  | some children =>
    have full : e.childList = children := by rw [childList, hc]; rfl
    rw [SpeechMarkup.walk, loop e [] same rfl (by rw [hc, full]; rfl), withNodes, hc]
    rfl

theorem walkFrom_of_child {target : Target} {parent after child : Element} {done rest : List Element} {visit : Visit}
    {inner later : Tidied} (inside : done.length < parent.childList.length)
    (slot : checkSlot target parent done.length = ⟨after, false, some visit⟩)
    (hc : after.children = some (done ++ child :: rest))
    (walked : walk target child = (child.withNodes inner.nodes, inner.visits))
    (loop : ∀ (next : Element) (front : List Element), next.name = after.name → front.length = done.length + 1 →
      next.children = some (front ++ rest) →
        walkFrom target next (done.length + 1) =
          ({ next with children := some (front ++ later.nodes) }, later.visits)) :
    walkFrom target parent done.length =
      ({ after with children := some (done ++ child.withNodes inner.nodes :: later.nodes) },
        visit :: (inner.visits ++ later.visits)) := by
  have found : after.childList[done.length]? = some child := by
    rw [childList, hc]
    simp
  have next : (after.setChild done.length (child.withNodes inner.nodes)).children =
      some ((done ++ [child.withNodes inner.nodes]) ++ rest) := by
    simp [setChild, hc, List.set_append_right]
  have restWalked := loop (after.setChild done.length (child.withNodes inner.nodes))
    (done ++ [child.withNodes inner.nodes]) rfl (by simp) next
  rw [walkFrom_of_stays inside slot found, walked, restWalked]
  simp [setChild]

/-- The invariant of the index loop, by the recursion on the nodes that are still to come. -/
theorem loopTidies (target : Target) (name : String) (index : Nat) (rest : List Element) :
    LoopTidies target name index rest := by
  unfold LoopTidies
  have inside {parent : Element} {done rest : List Element} {e : Element}
      (hc : parent.children = some (done ++ e :: rest)) : done.length < parent.childList.length := by
    rw [childList, hc]
    simp
  fun_induction tidy target name index rest with
  | case1 name index =>
    intro parent done _ length hc
    have behind : ¬ index < parent.childList.length := by
      rw [childList, hc]
      simp [length]
    rw [walkFrom, if_neg behind, ← hc, Element.eta]
  | case2 name index e rest unknown inner later ihInner ihLater =>
    intro parent done named length hc
    subst length
    have found : (done ++ e :: rest)[done.length]? = some e := by simp
    have slot := checkSlot_of_unknown target hc found unknown
    have walked := LoopTidies.walk rfl ihInner
    exact walkFrom_of_child (inside hc) slot hc walked (named ▸ ihLater)
  | case3 name index e rest tag known outcome visit action later ih =>
    intro parent done named length hc
    subst length named
    have next := ih { parent with children := some (done ++ rest) } done rfl rfl rfl
    rw [walkFrom_of_gone (inside hc) (checkSlot_of_remove hc known action), next]
    rfl
  | case4 name index e rest tag known outcome visit action later ih =>
    intro parent done named length hc
    subst length named
    -- The children that take the place of their parent are still to come, so the index stays before them.
    have next := ih { parent with children := some (done ++ (e.childList ++ rest)) } done rfl rfl rfl
    rw [walkFrom_of_gone (inside hc) (checkSlot_of_unwrap hc known action), next]
    rfl
  | case5 name index e rest tag known outcome visit action inner later ihInner ihLater =>
    intro parent done named length hc
    subst length named
    have slot := checkSlot_of_keep hc known action
    -- Inside the child the loop runs under the name that the child had before its repair, which is the same.
    have walked := LoopTidies.walk Tag.check_name ihInner
    have looped := walkFrom_of_child (inside hc) slot rfl walked ihLater
    exact looped

theorem walk_eq_tidy (target : Target) (parent : Element) :
    walk target parent =
      (parent.withNodes (tidy target parent.name 0 parent.childList).nodes,
        (tidy target parent.name 0 parent.childList).visits) :=
  LoopTidies.walk rfl (loopTidies target parent.name 0 parent.childList)

end SpeechMarkup
