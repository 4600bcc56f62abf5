import SpeechMarkup.Proofs.Required

/-! The rule of a tag beside conformance: it is silent exactly on the elements that conform, it leaves those alone
that conform fully, and whatever it keeps conforms fully. So what a rule keeps is a fixed point of the rule. -/

namespace SpeechMarkup

@[simp] theorem Element.eta (e : Element) :
    (⟨e.kind, e.name, e.attributes, e.children, e.text⟩ : Element) = e := by
  cases e
  rfl

def Place.under (target : Target) (parent : String) (index : Nat) : Place where
  target := target
  parent := if parent = "" then none else some parent
  index := index

namespace Tag

variable {tag : Tag} {place : Place}

section Listed

variable {names : List String}

theorem plan_eq_planAttributes (h : tag.allowed place.target.platform = some names) (e : Element) :
    tag.plan place e = tag.planAttributes place e := by
  cases tag with
  | desc => cases h
  | par => cases h
  | seq => cases h
  | speak => cases h
  | _ => rfl

theorem plan_of_supported (h : tag.allowed place.target.platform = some names)
    (supported : tag.supportedIn place.target.locale = true) (e : Element) :
    tag.plan place e =
      tag.settle e (tag.repairAttributes place e.attributes).1 (tag.repairAttributes place e.attributes).2 := by
  rw [plan_eq_planAttributes h, planAttributes, if_pos supported]

theorem check_of_supported (h : tag.allowed place.target.platform = some names)
    (supported : tag.supportedIn place.target.locale = true) (e : Element) :
    tag.check place e =
      (tag.settle e (tag.repairAttributes place e.attributes).1 (tag.repairAttributes place e.attributes).2).outcome := by
  rw [check_eq_plan, plan_of_supported h supported]

theorem plan_of_not_supported (h : tag.allowed place.target.platform = some names)
    (unsupported : tag.supportedIn place.target.locale ≠ true) (e : Element) :
    tag.plan place e =
      ⟨e, [.unsupported place.target.locale], if e.childList.isEmpty then .remove else .unwrap⟩ := by
  rw [plan_eq_planAttributes h, planAttributes, if_neg unsupported]

end Listed

theorem knownIn_iff {locale : Locale} : tag.KnownIn locale ↔ tag.supportedIn locale = true := by
  cases tag with
  | amazonEmotion => simp [KnownIn, supportedIn]
  | amazonDomain => cases locale <;> simp [KnownIn, supportedIn, Grammar.domainNames]
  | _ => simp [KnownIn, supportedIn]

theorem isTimed_iff {e : Element} : isTimed e = true ↔ e.name ∈ ["par", "seq", "media"] :=
  List.contains_iff_mem

section Conforms

variable {target : Target} {parent : String} {e : Element}

theorem conforms_iff {names : List String} (h : tag.allowed target.platform = some names) (index : Nat) :
    tag.Conforms target parent e ↔
      tag.supportedIn target.locale = true ∧ tag.Accepts (.under target parent index) e.attributes ∧
        ∀ attr ∈ tag.mandatory, e.attributes.contains attr = true := by
  have listed : ¬(tag = desc ∨ tag = par ∨ tag = seq ∨ tag = speak) := by
    rw [← allowed_eq_none_iff, h]
    exact Option.some_ne_none names
  rw [accepts_iff (.under target parent index) h, ← knownIn_iff]
  constructor
  · intro conforms
    exact ⟨conforms.known, ⟨conforms.kept names h, conforms.valued⟩, conforms.complete⟩
  · intro ⟨known, ⟨kept, valued⟩, complete⟩
    refine ⟨fun _ same => ?_, valued, complete, known, fun same => ?_, fun same => ?_⟩
    · cases h.symm.trans same
      exact kept
    · exact absurd (.inl same) listed
    · exact absurd (same.elim (.inr ∘ .inl) (.inr ∘ .inr ∘ .inl)) listed

theorem conforms_iff_of_free (h : tag.allowed target.platform = none) :
    tag.Conforms target parent e ↔ (tag = desc → parent = "audio") ∧
      (tag = par ∨ tag = seq → ∀ child ∈ e.childList, child.name ∈ ["par", "seq", "media"]) := by
  have free : tag.mandatory = [] ∧ tag.KnownIn target.locale := by
    rcases allowed_eq_none_iff.1 h with rfl | rfl | rfl | rfl <;> exact ⟨rfl, by simp [KnownIn]⟩
  constructor
  · intro conforms
    exact ⟨conforms.placed, conforms.timed⟩
  · intro ⟨placed, timed⟩
    refine ⟨fun names same => ?_, fun entry _ domain found => ?_, by simp [free.1], free.2, placed, timed⟩
    · rw [h] at same
      cases same
    · rw [domains_of_allowed_none h] at found
      cases found

theorem under_parent_eq_some_iff {name : String} (h : name ≠ "") (index : Nat) :
    (Place.under target parent index).parent = some name ↔ parent = name := by
  unfold Place.under
  by_cases nameless : parent = ""
  · simp [nameless, h.symm]
  · simp [nameless]

theorem planContainer_eq_nil_iff :
    (planContainer e).repairs = [] ↔ ∀ child ∈ e.childList, child.name ∈ ["par", "seq", "media"] := by
  simp only [planContainer, List.map_eq_nil_iff, List.filter_eq_nil_iff, Bool.not_eq_true',
    Bool.not_eq_false, isTimed_iff]

theorem planDesc_eq_nil_iff (index : Nat) :
    (planDesc (.under target parent index) e).repairs = [] ↔ parent = "audio" := by
  have inside : (Place.under target parent index).parent = some "audio" ↔ parent = "audio" :=
    under_parent_eq_some_iff (by decide) index
  rw [← inside]
  unfold planDesc
  split
  · next placed => exact ⟨fun _ => placed, fun _ => rfl⟩
  · next misplaced => exact ⟨fun silent => absurd silent (List.cons_ne_nil _ _), fun placed => absurd placed misplaced⟩

/-- The rule is silent exactly on the elements that conform. -/
theorem check_eq_nil_iff (index : Nat) :
    (tag.check (.under target parent index) e).violations = [] ↔ tag.Conforms target parent e := by
  rw [check_eq_plan, Plan.violations_outcome_eq_nil_iff]
  cases h : tag.allowed target.platform with
  | some names =>
    rw [conforms_iff h index]
    by_cases supported : tag.supportedIn (Place.under target parent index).target.locale = true
    · rw [plan_of_supported h supported, settle_repairs_eq_nil_iff, repairAttributes_eq_nil_iff]
      constructor
      · intro ⟨accepts, complete⟩
        rw [repairAttributes_of_accepts accepts] at complete
        exact ⟨supported, accepts, complete⟩
      · intro ⟨_, accepts, complete⟩
        rw [repairAttributes_of_accepts accepts]
        exact ⟨accepts, complete⟩
    · rw [plan_of_not_supported h supported]
      exact ⟨fun silent => absurd silent (List.cons_ne_nil _ _), fun conforms => absurd conforms.1 supported⟩
  | none =>
    rw [conforms_iff_of_free h]
    rcases allowed_eq_none_iff.1 h with rfl | rfl | rfl | rfl
    · simpa [plan] using planDesc_eq_nil_iff index
    · simpa [plan] using planContainer_eq_nil_iff
    · simpa [plan] using planContainer_eq_nil_iff
    · simp [plan]

theorem plan_of_conforms_listed {names : List String} (h : tag.allowed target.platform = some names)
    (conforms : tag.Conforms target parent e) (index : Nat) :
    tag.plan (.under target parent index) e = tag.settle e e.attributes [] := by
  obtain ⟨supported, accepts, -⟩ := (conforms_iff h index).1 conforms
  have silent := repairAttributes_eq_nil_iff.2 accepts
  rw [plan_of_supported h supported, silent, repairAttributes_of_accepts accepts]

theorem plan_of_conforms_free (h : tag.allowed target.platform = none) (conforms : tag.Conforms target parent e)
    (index : Nat) : tag.plan (.under target parent index) e = ⟨e, [], .keep⟩ := by
  have container (timed : ∀ child ∈ e.childList, child.name ∈ ["par", "seq", "media"]) :
      planContainer e = ⟨e, [], .keep⟩ := by
    have silent := planContainer_eq_nil_iff.2 timed
    have same : e.children.map (·.filter isTimed) = e.children := by
      cases found : e.children with
      | none => rfl
      | some children =>
        have all : children.filter isTimed = children := by
          rw [Element.childList, found] at timed
          exact List.filter_eq_self.2 fun child mem => isTimed_iff.2 (timed child mem)
        rw [Option.map_some, all]
    unfold planContainer at silent ⊢
    rw [same]
    simpa using silent
  rcases allowed_eq_none_iff.1 h with rfl | rfl | rfl | rfl
  · exact if_pos ((under_parent_eq_some_iff (by decide) index).2 (conforms.placed rfl))
  · exact container (conforms.timed (.inl rfl))
  · exact container (conforms.timed (.inr rfl))
  · rfl

theorem check_of_conforms (conforms : tag.Conforms target parent e) (index : Nat) :
    ∃ attributes, tag.check (.under target parent index) e = ⟨.start { e with attributes }, .keep⟩ := by
  simp only [check_eq_plan, ← Plan.outcome_of_silent]
  cases h : tag.allowed target.platform with
  | none => exact ⟨e.attributes, by rw [plan_of_conforms_free h conforms index, e.eta]⟩
  | some names =>
    rw [plan_of_conforms_listed h conforms index]
    by_cases isPause : tag = pause
    · subst isPause
      exact ⟨fillPause e.attributes, rfl⟩
    · exact ⟨e.attributes, by rw [settle_of_complete conforms.complete fun same => absurd same isPause]⟩

theorem check_of_conformsFully (conforms : tag.ConformsFully target parent e) (index : Nat) :
    tag.check (.under target parent index) e = ⟨.start e, .keep⟩ := by
  rw [check_eq_plan, ← Plan.outcome_of_silent]
  cases h : tag.allowed target.platform with
  | none => rw [plan_of_conforms_free h conforms.toConforms index]
  | some names =>
    rw [plan_of_conforms_listed h conforms.toConforms index]
    rw [settle_of_complete conforms.complete conforms.pauseLength, Element.eta]

theorem conformsFully_of_keep {index : Nat} (keep : (tag.check (.under target parent index) e).action = .keep) :
    tag.ConformsFully target parent (tag.check (.under target parent index) e).element := by
  rw [check_eq_plan] at keep ⊢
  simp only [Plan.action_outcome, Plan.element_outcome] at keep ⊢
  cases h : tag.allowed target.platform with
  | some names =>
    by_cases supported : tag.supportedIn (Place.under target parent index).target.locale = true
    · rw [plan_of_supported h supported] at keep ⊢
      obtain ⟨accepts, complete, pauseLength⟩ :=
        settle_of_keep supported (accepts_repairAttributes supported) keep
      exact ⟨(conforms_iff h index).2 ⟨supported, accepts, complete⟩, pauseLength⟩
    · rw [plan_of_not_supported h supported] at keep
      by_cases childless : e.childList.isEmpty = true <;> simp [childless] at keep
  | none =>
    have free : tag ≠ pause := by
      rintro rfl
      cases h
    refine ⟨(conforms_iff_of_free h).2 ?_, fun same => absurd same free⟩
    have container : ∀ child ∈ (planContainer e).element.childList, child.name ∈ ["par", "seq", "media"] := by
      intro child mem
      cases found : e.children with
      | none => simp [planContainer, Element.childList, found] at mem
      | some children =>
        simp only [planContainer, Element.childList, found, Option.map_some, Option.getD_some, List.mem_filter] at mem
        exact isTimed_iff.1 mem.2
    rcases allowed_eq_none_iff.1 h with rfl | rfl | rfl | rfl
    · refine ⟨fun _ => ?_, by simp⟩
      simp only [plan, planDesc] at keep
      split at keep
      · next placed => exact (under_parent_eq_some_iff (by decide) index).1 placed
      · cases keep
    · exact ⟨by simp, fun _ => container⟩
    · exact ⟨by simp, fun _ => container⟩
    · simp

end Conforms

section Element

variable {e : Element}

/-- A rule changes the attributes of an element, and children only where it drops those of a timed container. -/
theorem exists_check_element (tag : Tag) (place : Place) (e : Element) :
    ∃ attributes, (tag.check place e).element = { e with
      attributes, children := if tag = par ∨ tag = seq then e.children.map (·.filter isTimed) else e.children } := by
  rw [check_eq_plan, Plan.element_outcome]
  have attributes : ∃ attributes, (tag.planAttributes place e).element = { e with attributes } := by
    unfold planAttributes
    split
    · cases tag with
      | audio => simp only [settle]; split <;> exact ⟨_, rfl⟩
      | _ => exact ⟨_, rfl⟩
    · exact ⟨e.attributes, e.eta.symm⟩
  cases tag with
  | desc => simp only [plan, planDesc]; split <;> exact ⟨e.attributes, e.eta.symm⟩
  | par => exact ⟨e.attributes, rfl⟩
  | seq => exact ⟨e.attributes, rfl⟩
  | speak => exact ⟨e.attributes, e.eta.symm⟩
  | _ => exact attributes

theorem check_name : (tag.check place e).element.name = e.name := by
  obtain ⟨_, changed⟩ := exists_check_element tag place e
  rw [changed]

theorem not_supported_of_unwrap (unwrap : (tag.check place e).action = .unwrap) :
    tag.supportedIn place.target.locale ≠ true := by
  rw [check_eq_plan, Plan.action_outcome] at unwrap
  intro supported
  cases h : tag.allowed place.target.platform with
  | some names =>
    rw [plan_of_supported h supported] at unwrap
    exact settle_action_ne_unwrap unwrap
  | none =>
    rcases allowed_eq_none_iff.1 h with rfl | rfl | rfl | rfl
    · simp only [plan, planDesc] at unwrap
      split at unwrap <;> cases unwrap
    · cases unwrap
    · cases unwrap
    · cases unwrap

theorem exists_allowed_of_not_supported (unsupported : tag.supportedIn place.target.locale ≠ true) :
    ∃ names, tag.allowed place.target.platform = some names := by
  cases tag with
  | amazonEmotion => exact ⟨_, rfl⟩
  | amazonDomain => exact ⟨_, rfl⟩
  | _ => exact absurd rfl unsupported

theorem check_of_unwrap (unwrap : (tag.check place e).action = .unwrap) : (tag.check place e).element = e := by
  have unsupported := not_supported_of_unwrap unwrap
  obtain ⟨names, listed⟩ := exists_allowed_of_not_supported unsupported
  rw [check_eq_plan, plan_of_not_supported listed unsupported, Plan.element_outcome]

theorem check_action_of_timed (h : tag = par ∨ tag = seq ∨ tag = media) : (tag.check place e).action = .keep := by
  rw [check_eq_plan]
  rcases h with rfl | rfl | rfl <;> rfl

end Element

section Again

/-- Of its parent a rule sees at most whether it is a recording. -/
theorem check_eq_check_under (tag : Tag) (place : Place) (e : Element) :
    tag.check place e = tag.check (.under place.target (place.parent.getD "") place.index) e := by
  obtain ⟨target, parent, index⟩ := place
  have recording : parent = some "audio" ↔ (Place.under target (parent.getD "") index).parent = some "audio" := by
    rw [under_parent_eq_some_iff (by decide)]
    cases parent <;> simp
  cases tag with
  | desc => exact if_congr recording rfl rfl
  | _ => rfl

/-- What a rule keeps it keeps again, at whatever index, without a record and without a change. -/
theorem check_check_of_keep (tag : Tag) (place : Place) (e : Element) (index : Nat)
    (keep : (tag.check place e).action = .keep) :
    let again := tag.check { place with index } (tag.check place e).element
    again.action = .keep ∧ again.violations = [] ∧ again.element = (tag.check place e).element := by
  intro again
  rw [check_eq_check_under] at keep
  have conforms := conformsFully_of_keep keep
  rw [← check_eq_check_under] at conforms
  have silent := check_of_conformsFully conforms index
  have same : again = ⟨.start (tag.check place e).element, .keep⟩ := (check_eq_check_under ..).trans silent
  rw [same]
  exact ⟨rfl, rfl, rfl⟩

/-- A new identifier is told by the index of the first look, and the second look at another index leaves it. -/
theorem check_check_of_keep_media :
    let place : Place := ⟨{ platform := .google }, some "", 3⟩
    let e : Element := { name := "media", attributes := (Dictionary.empty.insert "end" "0").insert "xml:id" "bad id" }
    let once := media.check place e
    let again := media.check { place with index := 0 } once.element
    once.action = .keep ∧ once.violations.length = 2 ∧
      once.element.attributes = Dictionary.empty.insert "xml:id" "id_3" ∧
      again.action = .keep ∧ again.violations = [] ∧ again.element = once.element := by
  intro place e once again
  have repaired : once.violations.length = 2 ∧
      once.element.attributes = Dictionary.empty.insert "xml:id" "id_3" := by decide +kernel
  exact ⟨rfl, repaired.1, repaired.2, check_check_of_keep media place e 0 rfl⟩

end Again

end Tag

end SpeechMarkup
