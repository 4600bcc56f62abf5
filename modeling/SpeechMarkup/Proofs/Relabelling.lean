import SpeechMarkup.Proofs.Chronicle
import SpeechMarkup.Proofs.Wrapper

/-! Nodes with other kinds and other names. The rules see a name only through the tag that it has, and a kind not at
all, so a check of a tree whose nodes are labelled differently, with the same tags, does the same to it. The records
differ in the labels that they quote. The spellings of the extensions with a hyphen are an instance: they can be told
from those with a colon by the names in the result and in the records, and by nothing else. -/

namespace SpeechMarkup

open Element

theorem Verdict.repair_ne_dropped (verdict : Verdict) {attr value child : String} :
    verdict.repair attr value ≠ some (.dropped child) := by
  cases verdict <;> simp [repair]

theorem Tag.ne_dropped_of_mem {tag : Tag} {place : Place} {e : Element} {repair : Repair}
    (mem : repair ∈ (tag.planAttributes place e).repairs) (child : String) : repair ≠ .dropped child := by
  rintro rfl
  unfold planAttributes at mem
  split at mem
  · rcases mem_settle_repairs mem with repaired | same
    · obtain ⟨entry, -, told⟩ := List.mem_filterMap.1 repaired
      exact Verdict.repair_ne_dropped _ told
    · cases same
  · cases List.mem_singleton.1 mem

/-- Other kinds and names for nodes, such that every name keeps its tag. -/
structure Relabelling where
  kind : Option NodeKind → Option NodeKind
  name : String → String
  keeps_tag : ∀ n, Tag.ofName? (name n) = Tag.ofName? n

namespace Relabelling

mutual

def apply (r : Relabelling) : Element → Element
  | ⟨kind, name, attributes, none, text⟩ => ⟨r.kind kind, r.name name, attributes, none, text⟩
  | ⟨kind, name, attributes, some children, text⟩ =>
    ⟨r.kind kind, r.name name, attributes, some (r.applyAll children), text⟩

def applyAll (r : Relabelling) : List Element → List Element
  | [] => []
  | e :: rest => r.apply e :: r.applyAll rest

end

/-- What a record becomes when the labels of the nodes are exchanged. -/
inductive Retells (r : Relabelling) : Violation → Violation → Prop where
  | onAttribute (name attr : String) (value : Option String) :
      Retells r ⟨name, some attr, value⟩ ⟨r.name name, some attr, value⟩
  | onNode (name : String) : Retells r ⟨name, none, none⟩ ⟨r.name name, none, none⟩
  | onChild (name : String) (e : Element) :
      Retells r (.disallowedChild name (Tag.childLabel e)) (.disallowedChild (r.name name) (Tag.childLabel (r.apply e)))

variable {r : Relabelling}

theorem applyAll_eq_map (nodes : List Element) : r.applyAll nodes = nodes.map r.apply := by
  induction nodes with
  | nil => rfl
  | cons e rest ih => rw [applyAll, ih, List.map_cons]

@[simp] theorem name_apply (e : Element) : (r.apply e).name = r.name e.name := by
  obtain ⟨_, _, _, _ | _, _⟩ := e <;> rfl

@[simp] theorem kind_apply (e : Element) : (r.apply e).kind = r.kind e.kind := by
  obtain ⟨_, _, _, _ | _, _⟩ := e <;> rfl

@[simp] theorem attributes_apply (e : Element) : (r.apply e).attributes = e.attributes := by
  obtain ⟨_, _, _, _ | _, _⟩ := e <;> rfl

@[simp] theorem children_apply (e : Element) : (r.apply e).children = e.children.map (List.map r.apply) := by
  obtain ⟨_, _, _, _ | _, _⟩ := e <;> simp [apply, applyAll_eq_map]

@[simp] theorem childList_apply (e : Element) : (r.apply e).childList = e.childList.map r.apply := by
  obtain ⟨_, _, _, _ | _, _⟩ := e <;> simp [childList]

theorem apply_withNodes (e : Element) (nodes : List Element) :
    r.apply (e.withNodes nodes) = (r.apply e).withNodes (nodes.map r.apply) := by
  obtain ⟨_, _, _, _ | _, _⟩ := e <;> simp [apply, withNodes, applyAll_eq_map]

section Rules

theorem name_eq_iff {tag : Tag} (single : tag.alias? = none) (n : String) : r.name n = tag.name ↔ n = tag.name := by
  constructor
  · intro same
    exact Tag.eq_name_of_ofName? ((r.keeps_tag n).symm.trans (same ▸ Tag.ofName?_name tag)) single
  · rintro rfl
    exact Tag.eq_name_of_ofName? ((r.keeps_tag tag.name).trans (Tag.ofName?_name tag)) single

theorem isTimed_apply (e : Element) : Tag.isTimed (r.apply e) = Tag.isTimed e := by
  have same (tag : Tag) (single : tag.alias? = none) := r.name_eq_iff single e.name
  simp only [Tag.isTimed, Tag.timedNames, List.contains_eq_mem, name_apply, List.mem_cons, List.not_mem_nil, or_false,
    same .par rfl, same .seq rfl, same .media rfl]

theorem settle_apply (tag : Tag) (e : Element) (attributes : Attributes) (repairs : List Repair) :
    tag.settle (r.apply e) attributes repairs =
      { tag.settle e attributes repairs with element := r.apply (tag.settle e attributes repairs).element } := by
  have other (attributes : Attributes) : { r.apply e with attributes } = r.apply { e with attributes } := by
    obtain ⟨_, _, _, _ | _, _⟩ := e <;> rfl
  cases tag with
  | audio => simp only [Tag.settle, other]; split <;> rfl
  | _ => simp only [Tag.settle, other]

theorem planAttributes_apply (tag : Tag) (place : Place) (e : Element) :
    tag.planAttributes place (r.apply e) =
      { tag.planAttributes place e with element := r.apply (tag.planAttributes place e).element } := by
  rw [Tag.planAttributes, Tag.planAttributes, attributes_apply, childList_apply, List.isEmpty_map]
  split
  · exact settle_apply ..
  · rfl

theorem planAttributes_under (tag : Tag) (target : Target) (parent other : String) (index : Nat) (e : Element) :
    tag.planAttributes (.under target parent index) e = tag.planAttributes (.under target other index) e := by
  cases tag <;> rfl

theorem retells_violation {repair : Repair} (own : ∀ child, repair ≠ .dropped child) (name : String) :
    r.Retells (repair.violation name) (repair.violation (r.name name)) := by
  cases repair with
  | dropped child => exact absurd rfl (own child)
  | stripped attr => exact .onAttribute name attr none
  | replaced attr old _ => exact .onAttribute name attr (some old)
  | discarded attr old => exact .onAttribute name attr (some old)
  | lacking => exact .onAttribute name Violation.noAttribute none
  | unsupported _ => exact .onAttribute name Violation.noAttribute none
  | misplaced => exact .onNode name

structure Follows (r : Relabelling) (told outcome : Outcome) : Prop where
  element : told.element = r.apply outcome.element
  action : told.action = outcome.action
  violations : List.Forall₂ r.Retells outcome.violations told.violations

theorem follows_planAttributes (tag : Tag) (target : Target) (parent : String) (index : Nat) (e : Element) :
    r.Follows (tag.planAttributes (.under target (r.name parent) index) (r.apply e)).outcome
      (tag.planAttributes (.under target parent index) e).outcome := by
  rw [planAttributes_under tag target (r.name parent) parent, planAttributes_apply]
  refine ⟨rfl, rfl, ?_⟩
  simp only [Plan.violations_outcome, name_apply, List.forall₂_map_left_iff, List.forall₂_map_right_iff,
    List.forall₂_same]
  exact fun repair mem => retells_violation (Tag.ne_dropped_of_mem mem) _

theorem follows_planDesc (target : Target) (parent : String) (index : Nat) (e : Element) :
    r.Follows (Tag.planDesc (.under target (r.name parent) index) (r.apply e)).outcome
      (Tag.planDesc (.under target parent index) e).outcome := by
  have recording : (Place.under target (r.name parent) index).parent = some Tag.audio.name ↔
      (Place.under target parent index).parent = some Tag.audio.name := by
    rw [Tag.under_parent_eq_some_iff (by decide), Tag.under_parent_eq_some_iff (by decide), name_eq_iff rfl]
  unfold Tag.planDesc
  by_cases inside : (Place.under target parent index).parent = some Tag.audio.name
  · rw [if_pos inside, if_pos (recording.2 inside)]
    exact ⟨rfl, rfl, .nil⟩
  · rw [if_neg inside, if_neg (inside ∘ recording.1)]
    refine ⟨rfl, rfl, .cons ?_ .nil⟩
    simpa [Repair.violation, Violation.misplaced] using Retells.onNode (r := r) e.name

theorem follows_planContainer (e : Element) :
    r.Follows (Tag.planContainer (r.apply e)).outcome (Tag.planContainer e).outcome := by
  have timed : Tag.isTimed ∘ r.apply = Tag.isTimed := funext isTimed_apply
  have untimed : (fun child => !Tag.isTimed child) ∘ r.apply = fun child => !Tag.isTimed child :=
    funext fun child => congrArg not (isTimed_apply child)
  refine ⟨?_, rfl, ?_⟩
  · obtain ⟨_, _, _, _ | _, _⟩ := e <;> simp [Tag.planContainer, apply, applyAll_eq_map, List.filter_map, timed]
  · simp only [Plan.violations_outcome, Tag.planContainer, childList_apply, List.filter_map, untimed, List.map_map,
      List.forall₂_map_left_iff, List.forall₂_map_right_iff, List.forall₂_same]
    intro child _
    rw [name_apply]
    exact Retells.onChild e.name child

theorem follows_check (tag : Tag) (target : Target) (parent : String) (index : Nat) (e : Element) :
    r.Follows (tag.check (.under target (r.name parent) index) (r.apply e))
      (tag.check (.under target parent index) e) := by
  rw [Tag.check_eq_plan, Tag.check_eq_plan]
  cases tag with
  | desc => exact follows_planDesc ..
  | par => exact follows_planContainer e
  | seq => exact follows_planContainer e
  | speak => exact ⟨rfl, rfl, .nil⟩
  | _ => exact follows_planAttributes ..

end Rules

section Runs

structure Matches (r : Relabelling) (told tidied : Tidied) : Prop where
  nodes : told.nodes = tidied.nodes.map r.apply
  violations : List.Forall₂ r.Retells tidied.violations told.violations

namespace Matches

variable {toldVisit visit : Visit} {toldInner inner toldLater later : Tidied}

theorem goes (here : List.Forall₂ r.Retells visit.violations toldVisit.violations) (behind : r.Matches toldLater later) :
    r.Matches ⟨toldLater.nodes, toldVisit :: toldLater.visits⟩ ⟨later.nodes, visit :: later.visits⟩ := by
  refine ⟨behind.nodes, ?_⟩
  rw [Tidied.violations_cons, Tidied.violations_cons]
  exact List.rel_append here behind.violations

theorem stays {e : Element} (here : List.Forall₂ r.Retells visit.violations toldVisit.violations)
    (inside : r.Matches toldInner inner) (behind : r.Matches toldLater later) :
    r.Matches
      ⟨(r.apply e).withNodes toldInner.nodes :: toldLater.nodes, toldVisit :: (toldInner.visits ++ toldLater.visits)⟩
      ⟨e.withNodes inner.nodes :: later.nodes, visit :: (inner.visits ++ later.visits)⟩ := by
  refine ⟨?_, ?_⟩
  · rw [inside.nodes, behind.nodes, List.map_cons, apply_withNodes]
  · rw [Tidied.violations_cons_append, Tidied.violations_cons_append]
    exact List.rel_append here (List.rel_append inside.violations behind.violations)

end Matches

theorem matches_tidy (r : Relabelling) (target : Target) (parent : String) (index : Nat) (nodes : List Element) :
    r.Matches (tidy target (r.name parent) index (nodes.map r.apply)) (tidy target parent index nodes) := by
  have known {e : Element} {found : Option Tag} (h : Tag.ofName? e.name = found) :
      Tag.ofName? (r.apply e).name = found := by
    rw [name_apply, r.keeps_tag, h]
  fun_induction tidy target parent index nodes with
  | case1 parent index =>
    rw [List.map_nil, tidy]
    exact ⟨rfl, .nil⟩
  | case2 parent index e rest unknown inner later ihInner ihLater =>
    rw [List.map_cons, tidy_of_unknown (known unknown), childList_apply, name_apply]
    exact .stays .nil ihInner ihLater
  | case3 parent index e rest tag found outcome visit action later ih =>
    have follows := r.follows_check tag target parent index e
    rw [List.map_cons, tidy_of_remove (known found) (follows.action.trans action)]
    exact .goes follows.violations ih
  | case4 parent index e rest tag found outcome visit action later ih =>
    have follows := r.follows_check tag target parent index e
    rw [List.map_append, ← childList_apply] at ih
    rw [List.map_cons, tidy_of_unwrap (known found) (follows.action.trans action)]
    exact .goes follows.violations ih
  | case5 parent index e rest tag found outcome visit action inner later ihInner ihLater =>
    have follows := r.follows_check tag target parent index e
    have same : (tag.check (.under target (r.name parent) index) (r.apply e)).element = r.apply outcome.element :=
      follows.element
    rw [List.map_cons, tidy_of_keep (known found) (follows.action.trans action)]
    simp only [same, childList_apply, name_apply]
    exact .stays follows.violations ihInner ihLater

theorem matches_check (r : Relabelling) (config : Config) (document : Element) :
    (config.check (r.apply document)).document = r.apply (config.check document).document ∧
      List.Forall₂ r.Retells (config.check document).report.violations
        (config.check (r.apply document)).report.violations := by
  have tidied := r.matches_tidy config.toTarget document.name 0 document.childList
  rw [← name_apply, ← childList_apply] at tidied
  rw [document_check, document_check, violations_check, violations_check, apply_withNodes, tidied.nodes]
  exact ⟨rfl, tidied.violations⟩

end Runs

end Relabelling

section Spelling

def colonName (name : String) : String :=
  if name = "amazon-effect" then "amazon:effect"
  else if name = "amazon-emotion" then "amazon:emotion"
  else if name = "amazon-domain" then "amazon:domain"
  else name

theorem ofName?_colonName (name : String) : Tag.ofName? (colonName name) = Tag.ofName? name := by
  unfold colonName
  split
  case isTrue h => subst h; decide
  split
  case isTrue h => subst h; decide
  split
  case isTrue h => subst h; decide
  rfl

theorem colonName_eq_empty_iff {name : String} : colonName name = "" ↔ name = "" := by
  unfold colonName
  repeat' split
  all_goals simp [*]

/-- Every extension, anywhere in the tree, spelled with a colon. -/
def Relabelling.colons : Relabelling := ⟨id, colonName, ofName?_colonName⟩

/-- The record about the element that is spelled with a colon. The value of a record without an attribute is the name
of a child. -/
def Violation.withColons (violation : Violation) : Violation where
  tag := colonName violation.tag
  attr := violation.attr
  value := if violation.attr = none then violation.value.map colonName else violation.value

theorem childLabel_colons (e : Element) :
    Tag.childLabel (Relabelling.colons.apply e) = colonName (Tag.childLabel e) := by
  by_cases comment : e.kind = some .comment
  · simp [Tag.childLabel, Relabelling.colons, comment, colonName]
  · simp [Tag.childLabel, Relabelling.colons, comment]

theorem disallowedChild_withColons (name child : String) :
    (Violation.disallowedChild name child).withColons =
      .disallowedChild (colonName name) (colonName child) := by
  by_cases nameless : child = ""
  · subst nameless
    rfl
  · simp [Violation.disallowedChild, Violation.withColons, colonName_eq_empty_iff, nameless]

theorem Relabelling.Retells.eq_withColons {violation told : Violation} (h : colons.Retells violation told) :
    violation.withColons = told := by
  cases h with
  | onAttribute name attr value => rfl
  | onNode name => rfl
  | onChild name e => rw [disallowedChild_withColons, childLabel_colons]; rfl

/-- The two spellings of an extension are the same to a check: with colons it comes to the same document with colons,
to the same records with colons, and to the same verdict. -/
theorem check_colons (config : Config) (document : Element) :
    let checked := config.check document
    let told := config.check (Relabelling.colons.apply document)
    told.document = Relabelling.colons.apply checked.document ∧
      told.report = { checked.report with violations := checked.report.violations.map Violation.withColons } := by
  intro checked told
  obtain ⟨same, retold⟩ := Relabelling.colons.matches_check config document
  have violations : checked.report.violations.map Violation.withColons = told.report.violations := by
    rw [← List.forall₂_eq_eq_eq, List.forall₂_map_left_iff]
    exact retold.imp fun _ _ h => h.eq_withColons
  have report : told.report = .of config told.report.violations := rfl
  refine ⟨same, ?_⟩
  rw [report, ← violations]
  simp [checked, Config.check, Report.of]

end Spelling

end SpeechMarkup
