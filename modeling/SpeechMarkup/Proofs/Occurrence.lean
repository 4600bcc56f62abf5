import SpeechMarkup.Proofs.Tidy

/-! The nodes of a tree where they stand, and the visits they were paid. Of the visits of a walk, those after which
the node stayed belong one by one to the nodes of the finished tree, and each of them judged its node under its final
parent and at its final index. -/

namespace SpeechMarkup

open Element

/-- A node under a parent with this name, and its index among the children of the parent. -/
structure Occurrence where
  parent : String
  index : Nat
  node : Element

def occurrences (parent : String) (index : Nat) : List Element → List Occurrence
  | [] => []
  | e :: rest => ⟨parent, index, e⟩ :: (occurrences e.name 0 e.childList ++ occurrences parent (index + 1) rest)
termination_by nodes => totalWeight nodes
decreasing_by
  · have := weight_eq e
    simp only [totalWeight]
    omega
  · exact totalWeight_cons_lt e rest

/-- Everything inside a node, without the node itself. -/
def Element.descendants (e : Element) : List Occurrence :=
  occurrences e.name 0 e.childList

theorem forall_occurrences_cons {P : Occurrence → Prop} {parent : String} {index : Nat} {e : Element}
    {rest : List Element} : (∀ o ∈ occurrences parent index (e :: rest), P o) ↔
      P ⟨parent, index, e⟩ ∧ (∀ o ∈ e.descendants, P o) ∧ ∀ o ∈ occurrences parent (index + 1) rest, P o := by
  rw [occurrences, List.forall_mem_cons, List.forall_mem_append, Element.descendants]

theorem childList_withNodes_tidy (target : Target) (name : String) (e : Element) :
    (e.withNodes (tidy target name 0 e.childList).nodes).childList = (tidy target name 0 e.childList).nodes :=
  childList_withNodes (f := fun nodes => (tidy target name 0 nodes).nodes) (by rw [tidy])

namespace Visit

def stays (visit : Visit) : Bool :=
  visit.ruling.all fun ruling => !ruling.outcome.action.removesElement

def result (visit : Visit) : Element :=
  match visit.ruling with
  | none => visit.found
  | some ruling => ruling.outcome.element

end Visit

/-- In this visit the node was judged under its parent and at its index, and what came of it stands there, with
other nodes inside. -/
structure Judged (target : Target) (o : Occurrence) (visit : Visit) : Prop where
  index : visit.index = o.index
  name : visit.found.name = o.node.name
  ruling : visit.ruling = (Tag.ofName? o.node.name).map fun tag =>
    ⟨tag, tag.check (.under target o.parent o.index) visit.found⟩
  node : o.node = visit.result.withNodes o.node.childList

/-- A media element with a bad identifier gets one that tells its index. -/
def Renumbered (o : Occurrence) (visit : Visit) : Prop :=
  o.node.name = "media" → ∀ id, visit.found.attributes.get? "xml:id" = some id → ¬IsIdentifier id.toList →
    o.node.attributes.get? "xml:id" = some s!"id_{o.index}"

theorem withNodes_childList_withNodes (e : Element) (nodes : List Element) :
    e.withNodes (e.withNodes nodes).childList = e.withNodes nodes := by
  obtain ⟨_, _, _, _ | _, _⟩ := e <;> rfl

theorem occurrences_tidied {target : Target} {name : String} {e : Element} (same : e.name = name) (parent : String)
    (index : Nat) (rest : List Element) :
    occurrences parent index (e.withNodes (tidy target name 0 e.childList).nodes :: rest) =
      ⟨parent, index, e.withNodes (tidy target name 0 e.childList).nodes⟩ ::
        (occurrences name 0 (tidy target name 0 e.childList).nodes ++ occurrences parent (index + 1) rest) := by
  have named : (e.withNodes (tidy target name 0 e.childList).nodes).name = name := same
  rw [occurrences, childList_withNodes_tidy, named]

theorem judged_tidy (target : Target) (parent : String) (index : Nat) (nodes : List Element) :
    List.Forall₂ (Judged target) (occurrences parent index (tidy target parent index nodes).nodes)
      ((tidy target parent index nodes).visits.filter Visit.stays) := by
  fun_induction tidy target parent index nodes with
  | case1 parent index =>
    rw [occurrences]
    exact .nil
  | case2 parent index e rest unknown inner later ihInner ihLater =>
    have stays : Visit.stays ⟨index, e, none⟩ = true := rfl
    rw [occurrences_tidied rfl, List.filter_cons_of_pos stays, List.filter_append]
    refine .cons ⟨rfl, rfl, ?_, ?_⟩ (List.rel_append ihInner ihLater)
    · have same : (e.withNodes inner.nodes).name = e.name := rfl
      rw [same, unknown]
      rfl
    · exact (withNodes_childList_withNodes e inner.nodes).symm
  | case3 parent index e rest tag known outcome visit action later ih =>
    have goes : visit.stays = false := by simp [visit, Visit.stays, action, Action.removesElement]
    rw [List.filter_cons_of_neg (by rw [goes]; exact Bool.false_ne_true)]
    exact ih
  | case4 parent index e rest tag known outcome visit action later ih =>
    have goes : visit.stays = false := by simp [visit, Visit.stays, action, Action.removesElement]
    rw [List.filter_cons_of_neg (by rw [goes]; exact Bool.false_ne_true)]
    exact ih
  | case5 parent index e rest tag known outcome visit action inner later ihInner ihLater =>
    have stays : visit.stays = true := by simp [visit, Visit.stays, action, Action.removesElement]
    have name : outcome.element.name = e.name := Tag.check_name
    rw [occurrences_tidied name, List.filter_cons_of_pos stays, List.filter_append]
    refine .cons ⟨rfl, name.symm, ?_, ?_⟩ (List.rel_append ihInner ihLater)
    · have same : (outcome.element.withNodes inner.nodes).name = e.name := name
      rw [same, known]
      rfl
    · exact (withNodes_childList_withNodes outcome.element inner.nodes).symm

theorem judged_walk (target : Target) (parent : Element) :
    List.Forall₂ (Judged target) (walk target parent).1.descendants ((walk target parent).2.filter Visit.stays) := by
  have named : (parent.withNodes (tidy target parent.name 0 parent.childList).nodes).name = parent.name := rfl
  rw [walk_eq_tidy, descendants, named, childList_withNodes_tidy]
  exact judged_tidy target parent.name 0 parent.childList

theorem get?_id_check_media {place : Place} {e : Element} {id : String}
    (found : e.attributes.get? "xml:id" = some id) (bad : ¬IsIdentifier id.toList) :
    (Tag.media.check place e).element.attributes.get? "xml:id" = some s!"id_{place.index}" := by
  have attributes :
      (Tag.media.check place e).element.attributes = (Tag.media.repairAttributes place e.attributes).1 := by
    rw [Tag.check_eq_plan]
    rfl
  have refused : Form.identifier.accepts place.target.platform id = false := by
    rw [← Bool.not_eq_true]
    exact fun accepted => bad (isIdentifier_iff.1 accepted)
  have verdict : judge (Tag.media.grammar place e.attributes) place.target.platform "xml:id" id =
      .replace s!"id_{place.index}" := by
    simp [judge, Tag.grammar, Grammar.media, AttributeRule.accepts, refused, Fallback.instead]
  rw [attributes, Tag.get?_repairAttributes, found, Option.bind_some, verdict]
  rfl

theorem Judged.renumbered {target : Target} {o : Occurrence} {visit : Visit} (h : Judged target o visit) :
    Renumbered o visit := by
  intro media id found bad
  have ruling := h.ruling
  rw [media] at ruling
  have ruled : visit.ruling = some ⟨.media, Tag.media.check (.under target o.parent o.index) visit.found⟩ := ruling
  rw [h.node, Visit.result, ruled]
  exact get?_id_check_media found bad

/-- The walk is the recursion on the lists of children. Every node that is left was judged once, under the name of the
parent that it has in the end and at the index that it has in the end; so a media element whose identifier was bad
carries its place among its siblings in the new one. -/
theorem walk_refines_tidy (target : Target) (parent : Element) :
    walk target parent =
        (parent.withNodes (tidy target parent.name 0 parent.childList).nodes,
          (tidy target parent.name 0 parent.childList).visits) ∧
      (walk target parent).2.flatMap Visit.violations = (tidy target parent.name 0 parent.childList).violations ∧
      List.Forall₂ (fun o visit => Judged target o visit ∧ Renumbered o visit) (walk target parent).1.descendants
        ((walk target parent).2.filter Visit.stays) := by
  have walked := walk_eq_tidy target parent
  refine ⟨walked, by rw [walked]; rfl, ?_⟩
  exact (judged_walk target parent).imp fun o visit h => ⟨h, h.renumbered⟩

end SpeechMarkup
