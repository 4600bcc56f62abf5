import SpeechMarkup.Proofs.Losses

/-! Wrappers are the emotions and domains that the voices of a locale do not know. They are transparent: what is inside
one is judged as if it stood in the place of the wrapper, under the same parent and at the same index. So a check comes
to the same document with or without its wrappers, and the report differs by the records of the wrappers alone. A timed
container is the exception, for it drops a wrapper among its children with all that is inside. -/

namespace SpeechMarkup

open Element

/-- The names, in both spellings, of the elements that make way for their children in a locale. -/
def wrapperNames : Locale → List String
  | .enUS => []
  | .enAU => ["amazon:emotion", "amazon-emotion"]
  | _ => ["amazon:emotion", "amazon-emotion", "amazon:domain", "amazon-domain"]

theorem mem_wrapperNames_iff {locale : Locale} {name : String} :
    name ∈ wrapperNames locale ↔ ∃ tag, Tag.ofName? name = some tag ∧ tag.supportedIn locale = false := by
  constructor
  · intro wrapper
    cases locale with
    | enUS => cases wrapper
    | enAU =>
      simp only [wrapperNames, List.mem_cons, List.not_mem_nil, or_false] at wrapper
      rcases wrapper with rfl | rfl <;> exact ⟨.amazonEmotion, by decide, by decide⟩
    | _ =>
      simp only [wrapperNames, List.mem_cons, List.not_mem_nil, or_false] at wrapper
      rcases wrapper with rfl | rfl | rfl | rfl
      · exact ⟨.amazonEmotion, by decide, by decide⟩
      · exact ⟨.amazonEmotion, by decide, by decide⟩
      · exact ⟨.amazonDomain, by decide, by decide⟩
      · exact ⟨.amazonDomain, by decide, by decide⟩
  · rintro ⟨tag, known, unsupported⟩
    have named := Tag.eq_of_ofName? known
    cases tag with
    | amazonEmotion =>
      simp only [Tag.name, Tag.alias?, Option.some.injEq] at named
      rcases named with rfl | rfl <;> revert unsupported <;> cases locale <;> decide
    | amazonDomain =>
      simp only [Tag.name, Tag.alias?, Option.some.injEq] at named
      rcases named with rfl | rfl <;> revert unsupported <;> cases locale <;> decide
    | _ => cases unsupported

theorem supportedIn_of_not_wrapper {locale : Locale} {name : String} {tag : Tag} (known : Tag.ofName? name = some tag)
    (plain : name ∉ wrapperNames locale) : tag.supportedIn locale = true := by
  by_contra unsupported
  exact plain (mem_wrapperNames_iff.2 ⟨tag, known, Bool.eq_false_of_not_eq_true unsupported⟩)

/-- Some nodes with each wrapper, among them or inside them, replaced by what is inside it. -/
def unwrapped (locale : Locale) : List Element → List Element
  | [] => []
  | e :: rest =>
    let inner := unwrapped locale e.childList
    (if e.name ∈ wrapperNames locale then inner else [e.withNodes inner]) ++ unwrapped locale rest
termination_by nodes => totalWeight nodes
decreasing_by
  · have := weight_eq e
    simp only [totalWeight]
    omega
  · exact totalWeight_cons_lt e rest

/-- The document with its wrappers unwrapped. The node around it stays, whatever its name. -/
def Element.withoutWrappers (locale : Locale) (e : Element) : Element :=
  e.withNodes (unwrapped locale e.childList)

section Unwrapped

variable {locale : Locale} {e : Element} {nodes rest : List Element}

theorem unwrapped_of_wrapper (wrapper : e.name ∈ wrapperNames locale) :
    unwrapped locale (e :: rest) = unwrapped locale e.childList ++ unwrapped locale rest := by
  rw [unwrapped, if_pos wrapper]

theorem unwrapped_of_plain (plain : e.name ∉ wrapperNames locale) :
    unwrapped locale (e :: rest) = e.withoutWrappers locale :: unwrapped locale rest := by
  rw [unwrapped, if_neg plain, withoutWrappers, List.singleton_append]

theorem unwrapped_append (a b : List Element) :
    unwrapped locale (a ++ b) = unwrapped locale a ++ unwrapped locale b := by
  induction a with
  | nil => rw [unwrapped, List.nil_append, List.nil_append]
  | cons e rest ih =>
    by_cases wrapper : e.name ∈ wrapperNames locale
    · rw [List.cons_append, unwrapped_of_wrapper wrapper, unwrapped_of_wrapper wrapper, ih, List.append_assoc]
    · rw [List.cons_append, unwrapped_of_plain wrapper, unwrapped_of_plain wrapper, ih, List.cons_append]

theorem unwrapped_eq_map (plain : ∀ e ∈ nodes, e.name ∉ wrapperNames locale) :
    unwrapped locale nodes = nodes.map (withoutWrappers locale) := by
  induction nodes with
  | nil => rw [unwrapped, List.map_nil]
  | cons e rest ih =>
    obtain ⟨here, behind⟩ := List.forall_mem_cons.1 plain
    rw [unwrapped_of_plain here, ih behind, List.map_cons]

theorem childList_withoutWrappers : (e.withoutWrappers locale).childList = unwrapped locale e.childList :=
  childList_withNodes (by rw [unwrapped])

end Unwrapped

namespace Tag

variable {tag : Tag} {place : Place}

theorem plan_withNodes (filters : ¬(tag = par ∨ tag = seq)) (supported : tag.supportedIn place.target.locale = true)
    (e : Element) (nodes : List Element) : tag.plan place (e.withNodes nodes) =
      { tag.plan place e with element := (tag.plan place e).element.withNodes nodes } := by
  have settled (attributes : Attributes) (repairs : List Repair) :
      tag.settle (e.withNodes nodes) attributes repairs =
        { tag.settle e attributes repairs with
          element := (tag.settle e attributes repairs).element.withNodes nodes } := by
    cases tag with
    | audio => simp only [settle]; split <;> rfl
    | _ => rfl
  cases listed : tag.allowed place.target.platform with
  | some names =>
    rw [plan_of_supported listed supported, plan_of_supported listed supported]
    exact settled _ _
  | none =>
    rcases allowed_eq_none_iff.1 listed with rfl | rfl | rfl | rfl
    · simp only [plan, planDesc]
      split <;> rfl
    · exact absurd (.inl rfl) filters
    · exact absurd (.inr rfl) filters
    · rfl

theorem planContainer_map {e : Element} {f : Element → Element} (timed : ∀ child, isTimed (f child) = isTimed child)
    (label : ∀ child, childLabel (f child) = childLabel child) :
    planContainer (e.withNodes (e.childList.map f)) =
      { planContainer e with
        element := (planContainer e).element.withNodes ((planContainer e).element.childList.map f) } := by
  obtain ⟨kind, name, attributes, _ | children, text⟩ := e
  · rfl
  · simp [planContainer, withNodes, childList, List.filter_map, Function.comp_def, timed, label]

variable {target : Target} {parent : String} {index : Nat} {e : Element}

theorem check_withoutWrappers (parent : String) (index : Nat) (known : ofName? e.name = some tag)
    (plain : e.name ∉ wrapperNames target.locale)
    (clear : e.name ∈ ["par", "seq"] → ∀ child ∈ e.childList, child.name ∉ wrapperNames target.locale) :
    let outcome := tag.check (.under target parent index) e
    tag.check (.under target parent index) (e.withoutWrappers target.locale) =
      { outcome with element := outcome.element.withoutWrappers target.locale } := by
  intro outcome
  have same : outcome = (tag.plan (.under target parent index) e).outcome := check_eq_plan ..
  rw [check_eq_plan, same]
  suffices flat : tag.plan (.under target parent index) (e.withoutWrappers target.locale) =
      { tag.plan (.under target parent index) e with
        element := (tag.plan (.under target parent index) e).element.withoutWrappers target.locale } by
    rw [flat]
    rfl
  have inside : (tag.check (.under target parent index) e).element.childList = _ := childList_check _ e
  rw [check_eq_plan, Plan.element_outcome] at inside
  by_cases filters : tag = par ∨ tag = seq
  · have name : e.name ∈ ["par", "seq"] := (name_mem_containers_iff known).2 filters
    have planned : tag.plan (.under target parent index) = planContainer := by
      rcases filters with rfl | rfl <;> rfl
    have among : unwrapped target.locale (planContainer e).element.childList =
        (planContainer e).element.childList.map (withoutWrappers target.locale) := by
      rw [← planned, inside, if_pos filters]
      exact unwrapped_eq_map fun child mem => clear name child (List.mem_of_mem_filter mem)
    simp only [planned, withoutWrappers, among, unwrapped_eq_map (clear name)]
    exact planContainer_map (fun _ => rfl) fun _ => rfl
  · rw [if_neg filters] at inside
    rw [withoutWrappers, withoutWrappers, inside]
    exact plan_withNodes filters (supportedIn_of_not_wrapper known plain) e _

theorem check_of_wrapper (known : ofName? e.name = some tag) (wrapper : e.name ∈ wrapperNames target.locale) :
    tag.check (.under target parent index) e =
      Plan.outcome ⟨e, [.unsupported target.locale], if e.childList.isEmpty then .remove else .unwrap⟩ := by
  obtain ⟨other, same, unsupported⟩ := mem_wrapperNames_iff.1 wrapper
  cases known.symm.trans same
  have refused : tag.supportedIn (Place.under target parent index).target.locale ≠ true :=
    fun supported => Bool.false_ne_true (unsupported.symm.trans supported)
  obtain ⟨names, listed⟩ := exists_allowed_of_not_supported refused
  rw [check_eq_plan]
  exact congrArg Plan.outcome (plan_of_not_supported listed refused e)

theorem wrapper_of_unwrap (known : ofName? e.name = some tag)
    (unwrap : (tag.check (.under target parent index) e).action = .unwrap) : e.name ∈ wrapperNames target.locale :=
  mem_wrapperNames_iff.2 ⟨tag, known, Bool.eq_false_of_not_eq_true (not_supported_of_unwrap unwrap)⟩

end Tag

theorem forall_occurrences_iff {P : String → Element → Prop} {parent : String} {index : Nat} {nodes : List Element} :
    (∀ o ∈ occurrences parent index nodes, P o.parent o.node) ↔
      ∀ e ∈ nodes, P parent e ∧ ∀ o ∈ e.descendants, P o.parent o.node := by
  induction nodes generalizing index with
  | nil => simp [occurrences]
  | cons e rest ih =>
    rw [forall_occurrences_cons (P := fun o => P o.parent o.node), List.forall_mem_cons, ih, and_assoc]

theorem Repair.tag_violation (name : String) (repair : Repair) : (repair.violation name).tag = name := by
  cases repair <;> rfl

theorem Tag.tag_of_mem_violations {tag : Tag} {place : Place} {e : Element} {violation : Violation}
    (mem : violation ∈ (tag.check place e).violations) : violation.tag = e.name := by
  have named : (tag.check place e).element.name = e.name := check_name
  rw [← named]
  rw [check_eq_plan] at mem ⊢
  obtain ⟨repair, -, rfl⟩ := List.mem_map.1 mem
  exact repair.tag_violation _

theorem withNodes_withNodes (e : Element) (a b : List Element) : (e.withNodes a).withNodes b = e.withNodes b := by
  obtain ⟨_, _, _, _ | _, _⟩ := e <;> rfl

/-- No wrapper stands directly in a timed container, among these children of a node or inside them. -/
def Clear (locale : Locale) (parent : String) (nodes : List Element) : Prop :=
  ∀ o ∈ occurrences parent 0 nodes, o.parent ∈ ["par", "seq"] → o.node.name ∉ wrapperNames locale

theorem clear_iff {locale : Locale} {parent : String} {nodes : List Element} : Clear locale parent nodes ↔
    ∀ e ∈ nodes, (parent ∈ ["par", "seq"] → e.name ∉ wrapperNames locale) ∧ Clear locale e.name e.childList :=
  forall_occurrences_iff (P := fun parent e => parent ∈ ["par", "seq"] → e.name ∉ wrapperNames locale)

def plainRecords (locale : Locale) (violations : List Violation) : List Violation :=
  violations.filter fun violation => violation.tag ∉ wrapperNames locale

section Records

variable {locale : Locale} {tag : Tag} {place : Place} {e : Element}

theorem plainRecords_append (a b : List Violation) :
    plainRecords locale (a ++ b) = plainRecords locale a ++ plainRecords locale b :=
  List.filter_append ..

theorem plainRecords_of_wrapper (wrapper : e.name ∈ wrapperNames locale) :
    plainRecords locale (tag.check place e).violations = [] := by
  refine List.filter_eq_nil_iff.2 fun violation mem => ?_
  simpa [Tag.tag_of_mem_violations mem] using wrapper

theorem plainRecords_of_plain (plain : e.name ∉ wrapperNames locale) :
    plainRecords locale (tag.check place e).violations = (tag.check place e).violations := by
  refine List.filter_eq_self.2 fun violation mem => ?_
  simpa [Tag.tag_of_mem_violations mem] using plain

end Records

/-- The same nodes are left, and the same is reported but for the records about wrappers. -/
structure SameButWrappers (locale : Locale) (flat tidied : Tidied) : Prop where
  nodes : flat.nodes = tidied.nodes
  records : flat.violations = plainRecords locale tidied.violations

namespace SameButWrappers

variable {locale : Locale} {flatInner flatLater inner later : Tidied} {flatVisit visit : Visit}

theorem wrapper (silent : plainRecords locale visit.violations = []) (same : SameButWrappers locale flatLater later) :
    SameButWrappers locale flatLater ⟨later.nodes, visit :: later.visits⟩ := by
  refine ⟨same.nodes, ?_⟩
  rw [Tidied.violations_cons, plainRecords_append, silent, List.nil_append]
  exact same.records

theorem goes (visited : flatVisit.violations = plainRecords locale visit.violations)
    (same : SameButWrappers locale flatLater later) :
    SameButWrappers locale ⟨flatLater.nodes, flatVisit :: flatLater.visits⟩
      ⟨later.nodes, visit :: later.visits⟩ := by
  refine ⟨same.nodes, ?_⟩
  rw [Tidied.violations_cons, Tidied.violations_cons, plainRecords_append, visited, same.records]

theorem stays {e flat : Element} (visited : flatVisit.violations = plainRecords locale visit.violations)
    (node : ∀ nodes, flat.withNodes nodes = e.withNodes nodes) (sameInner : SameButWrappers locale flatInner inner)
    (sameLater : SameButWrappers locale flatLater later) :
    SameButWrappers locale
      ⟨flat.withNodes flatInner.nodes :: flatLater.nodes, flatVisit :: (flatInner.visits ++ flatLater.visits)⟩
      ⟨e.withNodes inner.nodes :: later.nodes, visit :: (inner.visits ++ later.visits)⟩ := by
  refine ⟨?_, ?_⟩
  · exact congrArg₂ List.cons ((node _).trans (congrArg e.withNodes sameInner.nodes)) sameLater.nodes
  · rw [Tidied.violations_cons_append, Tidied.violations_cons_append, plainRecords_append, plainRecords_append,
      visited, sameInner.records, sameLater.records]

end SameButWrappers

/-- What is left of nodes, and what is reported about them, is the same with the wrappers unwrapped, but for the
records about the wrappers. -/
theorem tidy_unwrapped {target : Target} (parent : String) (index : Nat) {nodes : List Element}
    (clear : Clear target.locale parent nodes) :
    SameButWrappers target.locale (tidy target parent index (unwrapped target.locale nodes))
      (tidy target parent index nodes) := by
  have node {e : Element} (nodes : List Element) :
      (e.withoutWrappers target.locale).withNodes nodes = e.withNodes nodes := withNodes_withNodes ..
  fun_induction tidy target parent index nodes with
  | case1 parent index => rw [unwrapped, tidy]; exact ⟨rfl, rfl⟩
  | case2 parent index e rest unknown inner later ihInner ihLater =>
    obtain ⟨⟨-, inside⟩, behind⟩ := List.forall_mem_cons.1 (clear_iff.1 clear)
    have plain : e.name ∉ wrapperNames target.locale := fun wrapper => by
      obtain ⟨tag, known, -⟩ := mem_wrapperNames_iff.1 wrapper
      cases unknown.symm.trans known
    have unknownFlat : Tag.ofName? (e.withoutWrappers target.locale).name = none := unknown
    rw [unwrapped_of_plain plain, tidy_of_unknown unknownFlat, childList_withoutWrappers]
    exact .stays rfl node (ihInner inside) (ihLater (clear_iff.2 behind))
  | case3 parent index e rest tag known outcome visit action later ih =>
    obtain ⟨⟨-, inside⟩, behind⟩ := List.forall_mem_cons.1 (clear_iff.1 clear)
    by_cases wrapper : e.name ∈ wrapperNames target.locale
    · have empty : e.childList = [] := by
        by_contra full
        simp [outcome, Tag.check_of_wrapper known wrapper, full] at action
      rw [unwrapped_of_wrapper wrapper, empty, unwrapped, List.nil_append]
      exact .wrapper (plainRecords_of_wrapper wrapper) (ih (clear_iff.2 behind))
    · have checked := Tag.check_withoutWrappers parent index known wrapper
        fun container child mem => (clear_iff.1 inside child mem).1 container
      have knownFlat : Tag.ofName? (e.withoutWrappers target.locale).name = some tag := known
      rw [unwrapped_of_plain wrapper, tidy_of_remove knownFlat (by rw [checked]; exact action), checked]
      exact .goes (plainRecords_of_plain wrapper).symm (ih (clear_iff.2 behind))
  | case4 parent index e rest tag known outcome visit action later ih =>
    obtain ⟨⟨here, inside⟩, behind⟩ := List.forall_mem_cons.1 (clear_iff.1 clear)
    have wrapper := Tag.wrapper_of_unwrap known action
    -- A wrapper stands in no timed container, so what is inside it meets none in its place.
    have spliced : Clear target.locale parent (e.childList ++ rest) := by
      refine clear_iff.2 (List.forall_mem_append.2 ⟨fun child mem => ⟨fun container => ?_, ?_⟩, behind⟩)
      · exact absurd wrapper (here container)
      · exact (clear_iff.1 inside child mem).2
    rw [unwrapped_of_wrapper wrapper, ← unwrapped_append]
    exact .wrapper (plainRecords_of_wrapper wrapper) (ih spliced)
  | case5 parent index e rest tag known outcome visit action inner later ihInner ihLater =>
    obtain ⟨⟨-, inside⟩, behind⟩ := List.forall_mem_cons.1 (clear_iff.1 clear)
    have plain : e.name ∉ wrapperNames target.locale := fun wrapper => by
      by_cases empty : e.childList.isEmpty = true <;>
        simp [outcome, Tag.check_of_wrapper known wrapper, empty] at action
    have fewer : Clear target.locale e.name outcome.element.childList := by
      refine clear_iff.2 fun child mem => clear_iff.1 inside child ?_
      rw [Tag.childList_check] at mem
      split at mem
      · exact List.mem_of_mem_filter mem
      · exact mem
    have checked := Tag.check_withoutWrappers parent index known plain
      fun container child mem => (clear_iff.1 inside child mem).1 container
    have knownFlat : Tag.ofName? (e.withoutWrappers target.locale).name = some tag := known
    rw [unwrapped_of_plain plain, tidy_of_keep knownFlat (by rw [checked]; exact action), checked]
    simp only [childList_withoutWrappers]
    exact .stays (plainRecords_of_plain plain).symm node (ihInner fewer) (ihLater (clear_iff.2 behind))

theorem plain_of_mem_unwrapped {locale : Locale} {nodes : List Element} :
    ∀ e ∈ unwrapped locale nodes,
      e.name ∉ wrapperNames locale ∧ ∀ o ∈ e.descendants, o.node.name ∉ wrapperNames locale := by
  fun_induction unwrapped locale nodes with
  | case1 => simp
  | case2 e rest inner ihInner ihLater =>
    refine List.forall_mem_append.2 ⟨?_, ihLater⟩
    split
    · exact ihInner
    · next plain =>
      refine List.forall_mem_singleton.2 ⟨plain, ?_⟩
      have inside : (e.withNodes inner).childList = inner := childList_withoutWrappers
      rw [descendants, inside]
      exact (forall_occurrences_iff (P := fun _ node => node.name ∉ wrapperNames locale)).2 ihInner

/-- A check comes to the same document with the wrappers unwrapped, and its report lacks the records about the wrappers
and no others, as long as no wrapper stands directly in a timed container. -/
theorem document_check_withoutWrappers (config : Config) {document : Element}
    (clear : ∀ o ∈ document.descendants, o.parent ∈ ["par", "seq"] → o.node.name ∉ wrapperNames config.locale) :
    let flat := document.withoutWrappers config.locale
    (∀ o ∈ flat.descendants, o.node.name ∉ wrapperNames config.locale) ∧
      (config.check flat).document = (config.check document).document ∧
      (config.check flat).report.violations =
        (config.check document).report.violations.filter fun violation =>
          violation.tag ∉ wrapperNames config.locale := by
  intro flat
  have same := tidy_unwrapped document.name 0 clear
  have nodes : flat.childList = unwrapped config.locale document.childList := childList_withoutWrappers
  have named : flat.name = document.name := rfl
  refine ⟨?_, ?_, ?_⟩
  · rw [descendants, nodes]
    exact (forall_occurrences_iff (P := fun _ node => node.name ∉ wrapperNames config.locale)).2 plain_of_mem_unwrapped
  · rw [document_check, document_check, nodes, named, same.nodes]
    exact withNodes_withNodes ..
  · rw [violations_check, violations_check, nodes, named, same.records]
    rfl

/-- A description and a media element reach the recording through two wrappers. -/
theorem document_check_withoutWrappers_recording :
    let media : Element := { name := "media", attributes := Dictionary.empty.insert "xml:id" "bad id" }
    let style : Element := { name := "amazon-domain", children := some [media] }
    let mood : Element := { name := "amazon:emotion", children := some [{ name := "desc" }, style] }
    let audio : Element := { name := "audio", attributes := Dictionary.empty.insert "src" "a", children := some [mood] }
    let config : Config := { locale := .enGB }
    let document := Element.document [audio]
    let flat := document.withoutWrappers .enGB
    (∀ o ∈ document.descendants, o.parent ∈ ["par", "seq"] → o.node.name ∉ wrapperNames .enGB) ∧
      flat = .document [{ audio with children := some [{ name := "desc" }, media] }] ∧
      (∀ o ∈ flat.descendants, o.node.name ∉ wrapperNames .enGB) ∧
      (config.check flat).document = (config.check document).document ∧
      (config.check flat).report.violations =
        (config.check document).report.violations.filter fun violation => violation.tag ∉ wrapperNames .enGB := by
  intro media style mood audio config document flat
  have clear : ∀ o ∈ document.descendants, o.parent ∈ ["par", "seq"] → o.node.name ∉ wrapperNames .enGB := by
    simp [document, audio, mood, style, media, Element.document, descendants, childList, occurrences]
  have flattened : flat = .document [{ audio with children := some [{ name := "desc" }, media] }] := by
    simp [flat, document, audio, mood, style, media, Element.document, withoutWrappers, unwrapped, withNodes, childList,
      wrapperNames]
  exact ⟨clear, flattened, document_check_withoutWrappers config clear⟩

end SpeechMarkup
