import SpeechMarkup.Check.Walk
import SpeechMarkup.Proofs.ByteOrder

/-! The rules told at once. A rule takes its steps one by one, each with a record and a line of its own; what it comes to
can be planned beforehand: all attributes as they are going to be, and the repairs in their order. Carried out, a plan
gives one record and one line for each of its repairs, and that is what the steps give. So no step is taken that leaves
a line without a record, or a record without a line. -/

namespace SpeechMarkup

inductive Repair where
  /-- An attribute that the tag does not know is taken away. -/
  | stripped (attr : String)
  /-- A value is replaced by one that the attribute takes. -/
  | replaced (attr old new : String)
  /-- An attribute is taken away for its value. -/
  | discarded (attr old : String)
  | lacking
  | unsupported (locale : Locale)
  | misplaced
  /-- A child that the element does not take is taken away. -/
  | dropped (child : String)
deriving DecidableEq

namespace Repair

def violation (name : String) : Repair → Violation
  | stripped attr => .unknownAttribute name attr
  | replaced attr old _ => .invalidValue name attr old
  | discarded attr old => .invalidValue name attr old
  | lacking => .missingRequired name
  | unsupported _ => .missingRequired name
  | misplaced => .misplaced name
  | dropped child => .disallowedChild name child

def line (name : String) (repair : Repair) : LogLine :=
  ⟨.debug, .rules, "<" ++ name ++ ">" ++ match repair with
    | stripped attr => " drops unsupported attribute " ++ attr
    | replaced attr _ new => " " ++ attr ++ " -> " ++ Text.quoted new
    | discarded attr old => " drops invalid " ++ attr ++ "=" ++ Text.quoted old
    | lacking => " lacks required attributes"
    | unsupported locale => " is not supported in " ++ locale.tag
    | misplaced => " outside <audio> removed"
    | dropped child => " drops child <" ++ child ++ ">"⟩

end Repair

namespace Verdict

def outcome (value : String) : Verdict → Option String
  | accepted => some value
  | replace value => some value
  | unknown | discard => none

def repair (attr value : String) : Verdict → Option Repair
  | accepted => none
  | unknown => some (.stripped attr)
  | replace new => some (.replaced attr value new)
  | discard => some (.discarded attr value)

end Verdict

/-- An element as its rule leaves it, the repairs that the rule makes, and what becomes of the element. -/
structure Plan where
  element : Element
  repairs : List Repair
  action : Action

/-- For each repair there is one record and one line. -/
def Plan.outcome (plan : Plan) : Outcome where
  element := plan.element
  violations := plan.repairs.map (Repair.violation plan.element.name)
  log := plan.repairs.map (Repair.line plan.element.name)
  action := plan.action

namespace Plan

@[simp] theorem element_outcome (plan : Plan) : plan.outcome.element = plan.element := rfl

@[simp] theorem action_outcome (plan : Plan) : plan.outcome.action = plan.action := rfl

theorem violations_outcome (plan : Plan) :
    plan.outcome.violations = plan.repairs.map (Repair.violation plan.element.name) := rfl

theorem log_outcome (plan : Plan) : plan.outcome.log = plan.repairs.map (Repair.line plan.element.name) := rfl

theorem violations_outcome_eq_nil_iff {plan : Plan} : plan.outcome.violations = [] ↔ plan.repairs = [] :=
  List.map_eq_nil_iff

theorem outcome_of_silent (e : Element) (action : Action) : (mk e [] action).outcome = ⟨.start e, action⟩ := rfl

end Plan

namespace Tag

def repairAttributes (tag : Tag) (place : Place) (attributes : Attributes) : Attributes × List Repair :=
  let verdict := judge (tag.grammar place attributes) place.target.platform
  (attributes.filterMap fun attr value => (verdict attr value).outcome value,
    (tag.inOrder attributes).filterMap fun (attr, value) => (verdict attr value).repair attr value)

def fillRequired (tag : Tag) (attributes : Attributes) : Attributes × List Repair :=
  if tag.required.all fun (attr, _) => attributes.contains attr then (attributes, [])
  else (tag.required.foldl (fun attributes (attr, value) => attributes.insertNew attr value) attributes, [.lacking])

def settle (tag : Tag) (e : Element) (attributes : Attributes) (repairs : List Repair) : Plan :=
  match tag with
  | audio =>
    if attributes.contains "src" then ⟨{ e with attributes }, repairs, .keep⟩
    else ⟨{ e with attributes }, repairs ++ [.lacking], .remove⟩
  | pause => ⟨{ e with attributes := fillPause attributes }, repairs, .keep⟩
  | _ =>
    let (attributes, lacks) := tag.fillRequired attributes
    ⟨{ e with attributes }, repairs ++ lacks, .keep⟩

def planAttributes (tag : Tag) (place : Place) (e : Element) : Plan :=
  if tag.supportedIn place.target.locale then
    let (attributes, repairs) := tag.repairAttributes place e.attributes
    tag.settle e attributes repairs
  else ⟨e, [.unsupported place.target.locale], if e.childList.isEmpty then .remove else .unwrap⟩

def planDesc (place : Place) (e : Element) : Plan :=
  if place.parent = some Tag.audio.name then ⟨e, [], .keep⟩ else ⟨e, [.misplaced], .remove⟩

def planContainer (e : Element) : Plan :=
  let refused := e.childList.filter fun child => !isTimed child
  ⟨{ e with children := e.children.map (·.filter isTimed) }, refused.map fun child => .dropped (childLabel child),
    .keep⟩

def plan (tag : Tag) (place : Place) (e : Element) : Plan :=
  match tag with
  | desc => planDesc place e
  | par | seq => planContainer e
  | speak => ⟨e, [], .keep⟩
  | _ => tag.planAttributes place e

end Tag

namespace Repairing

def repaired (r : Repairing) (attributes : Attributes) (repairs : List Repair) : Repairing where
  element := { r.element with attributes }
  violations := r.violations ++ repairs.map (Repair.violation r.element.name)
  log := r.log ++ repairs.map (Repair.line r.element.name)

variable {r : Repairing} {attr value : String} {verdict : String → String → Verdict}

theorem repaired_repaired (r : Repairing) (a b : Attributes) (first second : List Repair) :
    (r.repaired a first).repaired b second = r.repaired b (first ++ second) := by
  simp [repaired]

theorem repaired_self (r : Repairing) : r.repaired r.element.attributes [] = r := by
  obtain ⟨⟨_, _, _, _, _⟩, _, _⟩ := r
  simp [repaired]

/-- What a verdict asks for is done with one record and one line, or with neither. -/
theorem exists_follow (found : r.element.attributes.get? attr = some value) (verdict : Verdict) :
    ∃ attributes : Attributes, r.follow attr verdict = r.repaired attributes (verdict.repair attr value).toList ∧
      ∀ key, attributes.get? key = if key = attr then verdict.outcome value else r.element.attributes.get? key := by
  cases verdict with
  | accepted =>
    refine ⟨_, r.repaired_self.symm, fun key => ?_⟩
    by_cases here : key = attr
    · rw [if_pos here, here, found]; rfl
    · rw [if_neg here]
  | unknown => exact ⟨r.element.attributes.erase attr, rfl, r.element.attributes.get?_erase attr⟩
  | replace new =>
    refine ⟨r.element.attributes.insert attr new, ?_, r.element.attributes.get?_insert attr new⟩
    have present : (r.debug (" " ++ attr ++ " -> " ++ Text.quoted new)).element.attributes.get? attr = some value := found
    simp only [follow, replace, present]
    rfl
  | discard =>
    refine ⟨r.element.attributes.erase attr, ?_, r.element.attributes.get?_erase attr⟩
    simp only [follow, discard, found]
    rfl

/-- The attributes are looked at one after the other. By induction on those that are still to come: they are there as
they were found, since every step leaves the other attributes alone. -/
theorem exists_foldl_follow (verdict : String → String → Verdict) (entries : List (String × String)) (r : Repairing)
    (keys : (entries.map Prod.fst).Nodup)
    (found : ∀ entry ∈ entries, r.element.attributes.get? entry.1 = some entry.2) :
    ∃ attributes : Attributes,
      entries.foldl (fun r e => r.follow e.1 (verdict e.1 e.2)) r =
        r.repaired attributes (entries.filterMap fun e => (verdict e.1 e.2).repair e.1 e.2) ∧
      ∀ key, attributes.get? key = if key ∈ entries.map Prod.fst then
        (r.element.attributes.get? key).bind fun value => (verdict key value).outcome value
        else r.element.attributes.get? key := by
  induction entries generalizing r with
  | nil => exact ⟨_, r.repaired_self.symm, fun key => rfl⟩
  | cons entry rest ih =>
    obtain ⟨here, behind⟩ := List.forall_mem_cons.1 found
    obtain ⟨fresh, others⟩ := List.nodup_cons.1 keys
    obtain ⟨changed, step, after⟩ := exists_follow here (verdict entry.1 entry.2)
    have now (key : String) : (r.follow entry.1 (verdict entry.1 entry.2)).element.attributes.get? key =
        if key = entry.1 then (verdict entry.1 entry.2).outcome entry.2 else r.element.attributes.get? key := by
      rw [step]
      exact after key
    obtain ⟨attributes, steps, last⟩ := ih _ others fun e mem => by
      have other : e.1 ≠ entry.1 := fun same => fresh (same ▸ List.mem_map_of_mem mem)
      rw [now, if_neg other]
      exact behind e mem
    refine ⟨attributes, ?_, fun key => ?_⟩
    · have repairs : ((verdict entry.1 entry.2).repair entry.1 entry.2).toList ++
            rest.filterMap (fun e => (verdict e.1 e.2).repair e.1 e.2) =
          (entry :: rest).filterMap fun e => (verdict e.1 e.2).repair e.1 e.2 := by
        rw [List.filterMap_cons]
        cases (verdict entry.1 entry.2).repair entry.1 entry.2 <;> rfl
      rw [List.foldl_cons, steps, step, repaired_repaired, repairs]
    · rw [last, now]
      simp only [List.map_cons, List.mem_cons]
      by_cases same : key = entry.1
      · rw [if_neg (same ▸ fresh), if_pos same, if_pos (.inl same), same, here, Option.bind_some]
      · simp only [same, if_false, false_or]

end Repairing

namespace Tag

variable {tag : Tag} {place : Place} {e : Element}

theorem keys_inOrder_perm (tag : Tag) (attributes : Attributes) :
    (tag.inOrder attributes).Perm attributes.entries := by
  have others : (fun e : String × String => decide (tag.leading ≠ some e.1)) =
      fun e => !decide (tag.leading = some e.1) := by
    funext e
    exact decide_not
  rw [inOrder, others]
  exact List.filter_append_perm ..

theorem correct_eq (tag : Tag) (place : Place) (e : Element) :
    tag.correct place (.start e) = (Repairing.start e).repaired (tag.repairAttributes place e.attributes).1
      (tag.repairAttributes place e.attributes).2 := by
  have perm := tag.keys_inOrder_perm e.attributes
  obtain ⟨attributes, steps, changed⟩ := Repairing.exists_foldl_follow
    (judge (tag.grammar place e.attributes) place.target.platform) (tag.inOrder e.attributes) (.start e)
    ((perm.map Prod.fst).nodup_iff.2 e.attributes.sorted.nodup)
    fun entry mem => Dictionary.get?_eq_some_iff.2 (perm.mem_iff.1 mem)
  have same : attributes = (tag.repairAttributes place e.attributes).1 := by
    refine Dictionary.ext_get? fun key => ?_
    rw [changed, repairAttributes, Dictionary.get?_filterMap]
    split
    · rfl
    · next absent =>
      have none : e.attributes.get? key = none := by
        refine Option.eq_none_iff_forall_ne_some.2 fun value found => absent ?_
        exact List.mem_map.2 ⟨(key, value), perm.mem_iff.2 (Dictionary.get?_eq_some_iff.1 found), rfl⟩
      rw [none]
      exact none
  rw [← same]
  exact steps

theorem finish_eq (tag : Tag) (e : Element) (attributes : Attributes) (repairs : List Repair) :
    tag.finish ((Repairing.start e).repaired attributes repairs) = (tag.settle e attributes repairs).outcome := by
  have now : ((Repairing.start e).repaired attributes repairs).element.attributes = attributes := rfl
  have missing : ((Repairing.start e).repaired attributes repairs).reportMissing =
      (Repairing.start e).repaired attributes (repairs ++ [.lacking]) := by
    rw [← Repairing.repaired_repaired]
    rfl
  have require : Outcome.mk (((Repairing.start e).repaired attributes repairs).require tag.required) .keep =
      (Plan.mk { e with attributes := (tag.fillRequired attributes).1 } (repairs ++ (tag.fillRequired attributes).2)
        .keep).outcome := by
    rw [Repairing.require, fillRequired, missing, now]
    by_cases complete : (tag.required.all fun (attr, _) => attributes.contains attr) = true
    · rw [if_pos complete, if_pos complete, List.append_nil]
      rfl
    · rw [if_neg complete, if_neg complete]
      rfl
  cases tag with
  | audio =>
    rw [finish, settle, missing, now]
    by_cases source : attributes.contains "src" = true
    · rw [if_pos source, if_pos source]
      rfl
    · rw [if_neg source, if_neg source]
      rfl
  | pause => rfl
  | _ => exact require

theorem checkAttributes_eq_planAttributes (tag : Tag) (place : Place) (e : Element) :
    tag.checkAttributes place e = (tag.planAttributes place e).outcome := by
  unfold checkAttributes planAttributes
  split
  · rw [correct_eq, finish_eq]
  · rfl

theorem checkDesc_eq_planDesc (place : Place) (e : Element) : checkDesc place e = (planDesc place e).outcome := by
  unfold checkDesc planDesc
  split <;> rfl

theorem retainTimed_eq (r : Repairing) (children : List Element) :
    retainTimed r children = (children.filter isTimed, r.repaired r.element.attributes
      ((children.filter fun child => !isTimed child).map fun child => .dropped (childLabel child))) := by
  induction children generalizing r with
  | nil => exact congrArg _ r.repaired_self.symm
  | cons child rest ih =>
    rw [retainTimed]
    by_cases timed : isTimed child = true
    · simp [timed, ih r]
    · simp [timed, ih, Repairing.repaired, Repairing.debug, Repairing.record, Repairing.subject, Repair.violation,
        Repair.line]

theorem checkContainer_eq_planContainer (e : Element) : checkContainer e = (planContainer e).outcome := by
  obtain ⟨kind, name, attributes, _ | children, text⟩ := e
  · rfl
  · simp [checkContainer, planContainer, retainTimed_eq, Repairing.repaired, Repairing.start, Plan.outcome,
      Element.childList]

/-- The rule of every tag comes to what is planned: its records and its lines go with the same repairs. -/
theorem check_eq_plan (tag : Tag) (place : Place) (e : Element) : tag.check place e = (tag.plan place e).outcome := by
  cases tag with
  | desc => exact checkDesc_eq_planDesc place e
  | par => exact checkContainer_eq_planContainer e
  | seq => exact checkContainer_eq_planContainer e
  | speak => rfl
  | _ => exact checkAttributes_eq_planAttributes _ place e

end Tag

end SpeechMarkup
