import SpeechMarkup.Proofs.Repaired

/-! Every repair is reported, with one exception: a pause that says nothing about its length becomes a medium one in
silence. So a check reports nothing exactly where it left the document as it was but for such pauses. One direction
follows the recursion on the lists of children. The other needs no look at the rules: what a check leaves conforms
fully, and a document that differs from it in silent pauses only conformed before. -/

namespace SpeechMarkup

open Element

namespace Element

/-- A pause that says nothing about its length, as the medium one that it is. -/
def mediumPause (e : Element) : Element :=
  if e.name = "break" ∧ e.attributes.get? "strength" = none ∧ e.attributes.get? "time" = none then
    e.setAttribute "strength" "medium"
  else e

theorem name_mediumPause (e : Element) : e.mediumPause.name = e.name := by
  unfold mediumPause
  split <;> rfl

theorem childList_mediumPause (e : Element) : e.mediumPause.childList = e.childList := by
  unfold mediumPause
  split <;> rfl

theorem mediumPause_of_ne {e : Element} (h : e.name ≠ "break") : e.mediumPause = e :=
  if_neg fun silent => h silent.1

theorem mediumPause_of_contains {e : Element}
    (h : e.attributes.contains "strength" = true ∨ e.attributes.contains "time" = true) : e.mediumPause = e := by
  refine if_neg fun silent => ?_
  simp [Dictionary.contains, silent.2] at h

theorem get?_mediumPause {e : Element} {attr value : String} (h : e.attributes.get? attr = some value) :
    e.mediumPause.attributes.get? attr = some value := by
  unfold mediumPause
  split
  · next silent =>
    have other : attr ≠ "strength" := by
      rintro rfl
      simp [silent.2.1] at h
    rw [setAttribute, Dictionary.get?_insert, if_neg other, h]
  · exact h

end Element

/-- Every pause of a list of nodes that says nothing about its length, the nodes inside included. -/
def mediumPauses : List Element → List Element
  | [] => []
  | e :: rest => e.mediumPause.withNodes (mediumPauses e.childList) :: mediumPauses rest
termination_by nodes => totalWeight nodes
decreasing_by
  · have := weight_eq e
    simp only [totalWeight]
    omega
  · exact totalWeight_cons_lt e rest

/-- A document with its silent pauses filled in. The node around it is not looked at. -/
def Element.withMediumPauses (document : Element) : Element :=
  document.withNodes (mediumPauses document.childList)

theorem childList_withNodes_mediumPauses (e : Element) :
    (e.mediumPause.withNodes (mediumPauses e.childList)).childList = mediumPauses e.childList := by
  rw [← childList_mediumPause e]
  exact childList_withNodes (by rw [mediumPauses])

def Occurrence.withMediumPauses (o : Occurrence) : Occurrence :=
  { o with node := o.node.mediumPause.withNodes (mediumPauses o.node.childList) }

theorem occurrences_mediumPauses (parent : String) (index : Nat) (nodes : List Element) :
    occurrences parent index (mediumPauses nodes) =
      (occurrences parent index nodes).map Occurrence.withMediumPauses := by
  fun_induction occurrences parent index nodes with
  | case1 parent index => rw [mediumPauses, occurrences]; rfl
  | case2 parent index e rest ihInner ihLater =>
    have named : (e.mediumPause.withNodes (mediumPauses e.childList)).name = e.name := name_mediumPause e
    rw [mediumPauses, occurrences, childList_withNodes_mediumPauses, named, ihInner, ihLater, List.map_cons,
      List.map_append]
    rfl

theorem mem_names_mediumPauses {nodes : List Element} {names : List String}
    (h : ∀ child ∈ mediumPauses nodes, child.name ∈ names) : ∀ child ∈ nodes, child.name ∈ names := by
  induction nodes with
  | nil => simp
  | cons e rest ih =>
    rw [mediumPauses, List.forall_mem_cons] at h
    have named : (e.mediumPause.withNodes (mediumPauses e.childList)).name = e.name := name_mediumPause e
    exact List.forall_mem_cons.2 ⟨named ▸ h.1, ih h.2⟩

namespace Tag

theorem name_eq_break_iff {name : String} {tag : Tag} (known : ofName? name = some tag) :
    name = "break" ↔ tag = pause := by
  constructor
  · rintro rfl
    exact Option.some.inj (known.symm.trans (ofName?_name pause))
  · rintro rfl
    exact eq_name_of_ofName? known rfl

variable {tag : Tag} {target : Target} {parent : String} {e : Element}

theorem mediumPause_of_ne_pause (known : ofName? e.name = some tag) (h : tag ≠ pause) : e.mediumPause = e :=
  mediumPause_of_ne fun same => h ((name_eq_break_iff known).1 same)

theorem mediumPause_of_pause (isPause : e.name = "break") :
    e.mediumPause = { e with attributes := fillPause e.attributes } := by
  by_cases present : e.attributes.contains "strength" = true ∨ e.attributes.contains "time" = true
  · rw [mediumPause_of_contains present, fillPause, if_pos (Bool.or_eq_true_iff.2 present), Element.eta]
  · have absent := present
    simp only [not_or, Bool.not_eq_true, Dictionary.contains, Option.isSome_eq_false_iff,
      Option.isNone_iff_eq_none] at absent
    rw [mediumPause, if_pos ⟨isPause, absent⟩, fillPause, if_neg (by rwa [Bool.or_eq_true_iff]), setAttribute]

/-- A conforming element is kept as it is, but for a silent pause. -/
theorem check_of_conforms_eq (known : ofName? e.name = some tag) (conforms : tag.Conforms target parent e)
    (index : Nat) : tag.check (.under target parent index) e = ⟨.start e.mediumPause, .keep⟩ := by
  by_cases isPause : tag = pause
  · subst isPause
    have listed : pause.allowed target.platform = some ["strength", "time"] := rfl
    rw [check_eq_plan, plan_of_conforms_listed listed conforms index, settle,
      mediumPause_of_pause ((name_eq_break_iff known).2 rfl), Plan.outcome_of_silent]
  · rw [mediumPause_of_ne_pause known isPause]
    exact check_of_conformsFully ⟨conforms, fun same => absurd same isPause⟩ index

theorem conforms_of_mediumPauses (known : ofName? e.name = some tag)
    (h : tag.Conforms target parent (e.mediumPause.withNodes (mediumPauses e.childList))) :
    tag.Conforms target parent e := by
  have stays {entry : String × String} (mem : entry ∈ e.attributes.entries) :
      entry ∈ e.mediumPause.attributes.entries :=
    Dictionary.get?_eq_some_iff.1 (get?_mediumPause (Dictionary.get?_eq_some_iff.2 mem))
  refine ⟨fun names listed entry mem => h.kept names listed entry (stays mem), fun entry mem domain found => ?_,
    fun attr mem => ?_, h.known, h.placed, fun container => ?_⟩
  · -- The domains look at other attributes for a date only, and a pause is none.
    refine h.valued entry (stays mem) domain ?_
    by_cases isPause : tag = pause
    · subst isPause
      exact found
    · rw [mediumPause_of_ne_pause known isPause]
      exact found
  · by_cases isPause : tag = pause
    · subst isPause
      simp [mandatory] at mem
    · have present := h.complete attr mem
      rwa [mediumPause_of_ne_pause known isPause] at present
  · have timed := h.timed container
    rw [childList_withNodes_mediumPauses] at timed
    exact mem_names_mediumPauses timed

end Tag

variable {target : Target}

theorem Occurrence.conforms_of_mediumPauses {o : Occurrence} (h : o.withMediumPauses.Conforms target) :
    o.Conforms target := by
  intro tag known
  have named : o.withMediumPauses.node.name = o.node.name := name_mediumPause o.node
  exact Tag.conforms_of_mediumPauses known (h tag (named ▸ known))

theorem tidy_of_conforms (parent : String) (index : Nat) {nodes : List Element}
    (conforms : ∀ o ∈ occurrences parent index nodes, o.Conforms target) :
    (tidy target parent index nodes).nodes = mediumPauses nodes := by
  fun_induction tidy target parent index nodes with
  | case1 parent index => rw [mediumPauses]
  | case2 parent index e rest unknown inner later ihInner ihLater =>
    obtain ⟨-, inside, behind⟩ := forall_occurrences_cons.1 conforms
    have other : e.name ≠ "break" := fun same => by
      rw [same] at unknown
      cases unknown.symm.trans (Tag.ofName?_name .pause)
    rw [mediumPauses, ihInner inside, ihLater behind, mediumPause_of_ne other]
  | case3 parent index e rest tag known outcome visit action later ih =>
    have goes : outcome.action ≠ .keep := by simp [action]
    exact absurd (forall_occurrences_cons.1 conforms).1 (Occurrence.not_conforms known goes)
  | case4 parent index e rest tag known outcome visit action later ih =>
    have goes : outcome.action ≠ .keep := by simp [action]
    exact absurd (forall_occurrences_cons.1 conforms).1 (Occurrence.not_conforms known goes)
  | case5 parent index e rest tag known outcome visit action inner later ihInner ihLater =>
    obtain ⟨here, inside, behind⟩ := forall_occurrences_cons.1 conforms
    have left := Tag.check_of_conforms_eq known (here tag known) index
    have element : outcome.element = e.mediumPause := congrArg (fun outcome : Outcome => outcome.element) left
    have sameInner : inner.nodes = mediumPauses outcome.element.childList :=
      ihInner (by rw [element, childList_mediumPause]; exact inside)
    rw [mediumPauses, sameInner, ihLater behind, element, childList_mediumPause]

/-- A check reports nothing exactly where silent pauses are all that it filled in, and it never reports anything
about a document that it left as it was. -/
theorem violations_check_eq_nil_iff_document (config : Config) (document : Element) :
    ((config.check document).report.violations = [] ↔
      (config.check document).document = document.withMediumPauses) ∧
    ((config.check document).report.violations = [] ∨ (config.check document).document ≠ document) := by
  have silent : (config.check document).report.violations = [] ↔
      ∀ o ∈ document.descendants, o.Conforms config.toTarget := by
    rw [violations_check]
    exact violations_tidy_eq_nil_iff document.name 0 document.childList
  have repaired : ∀ o ∈ (config.check document).document.descendants, o.Conforms config.toTarget := by
    rw [descendants_check]
    exact fun o mem => (conformsFully_tidy document.name 0 document.childList o mem).conforms
  refine ⟨⟨fun nothing => ?_, fun same => ?_⟩, ?_⟩
  · rw [document_check, tidy_of_conforms document.name 0 (silent.1 nothing), Element.withMediumPauses]
  · have named : document.withMediumPauses.name = document.name := rfl
    rw [same, descendants, named, withMediumPauses, childList_withNodes (by rw [mediumPauses]),
      occurrences_mediumPauses, List.forall_mem_map] at repaired
    exact silent.2 fun o mem => Occurrence.conforms_of_mediumPauses (repaired o mem)
  · by_cases same : (config.check document).document = document
    · rw [same] at repaired
      exact .inl (silent.2 repaired)
    · exact .inr same

end SpeechMarkup
