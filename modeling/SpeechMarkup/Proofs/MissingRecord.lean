import SpeechMarkup.Proofs.Accounting

/-! The record that something is missing. A rule makes it where a mandatory attribute is still missing after the others
were seen to, and where the locale does not know the tag. It names no attribute but the word `none` in the place of one;
an unknown attribute that is itself called `none` is recorded in the same words, and only such a one is. -/

namespace SpeechMarkup

theorem Repair.violation_eq_missingRequired_iff {repair : Repair} {name : String} :
    repair.violation name = .missingRequired name ↔
      repair = .stripped "none" ∨ repair = .lacking ∨ ∃ locale, repair = .unsupported locale := by
  cases repair <;> simp [violation, Violation.missingRequired, Violation.unknownAttribute, Violation.invalidValue,
    Violation.misplaced, Violation.disallowedChild, Violation.noAttribute]

theorem Verdict.repair_eq_stripped_iff {verdict : Verdict} {attr value other : String} :
    verdict.repair attr value = some (.stripped other) ↔ verdict = .unknown ∧ attr = other := by
  cases verdict <;> simp [repair]

theorem Plan.missingRequired_mem_violations_iff {plan : Plan} :
    .missingRequired plan.element.name ∈ plan.outcome.violations ↔
      .stripped "none" ∈ plan.repairs ∨ .lacking ∈ plan.repairs ∨ ∃ locale, .unsupported locale ∈ plan.repairs := by
  simp only [violations_outcome, List.mem_map, Repair.violation_eq_missingRequired_iff]
  constructor
  · rintro ⟨repair, made, rfl | rfl | ⟨locale, rfl⟩⟩
    · exact .inl made
    · exact .inr (.inl made)
    · exact .inr (.inr ⟨locale, made⟩)
  · rintro (made | made | ⟨locale, made⟩)
    · exact ⟨_, made, .inl rfl⟩
    · exact ⟨_, made, .inr (.inl rfl)⟩
    · exact ⟨_, made, .inr (.inr ⟨locale, rfl⟩)⟩

namespace Tag

variable {tag : Tag} {place : Place} {attributes : Attributes} {names : List String} {e : Element}

/-- An attribute that the tag must have is missing once the unknown ones are gone and the values that are not accepted
are replaced or gone. -/
def Lacks (tag : Tag) (place : Place) (attributes : Attributes) : Prop :=
  ∃ attr ∈ tag.mandatory, (tag.repairAttributes place attributes).1.contains attr = false

theorem none_not_mem_allowed {platform : Platform} (listed : tag.allowed platform = some names) : "none" ∉ names := by
  have every : ∀ names ∈ tag.allowed platform, "none" ∉ names := by
    cases platform <;> cases tag <;> decide
  exact every names listed

theorem stripped_none_mem_iff (listed : tag.allowed place.target.platform = some names) :
    .stripped "none" ∈ (tag.repairAttributes place attributes).2 ↔ attributes.contains "none" = true := by
  have unknown (value : String) :
      judge (tag.grammar place attributes) place.target.platform "none" value = .unknown :=
    (judge_eq_unknown_iff listed attributes "none" value).2 (none_not_mem_allowed listed)
  simp only [repairAttributes, List.mem_filterMap, mem_inOrder, Verdict.repair_eq_stripped_iff, Dictionary.contains,
    Option.isSome_iff_exists, Dictionary.get?_eq_some_iff]
  constructor
  · rintro ⟨⟨attr, value⟩, mem, -, rfl⟩
    exact ⟨value, mem⟩
  · rintro ⟨value, mem⟩
    exact ⟨("none", value), mem, unknown value, rfl⟩

theorem of_mem_repairAttributes {repair : Repair} (mem : repair ∈ (tag.repairAttributes place attributes).2) :
    repair ≠ .lacking ∧ ∀ locale, repair ≠ .unsupported locale := by
  obtain ⟨⟨attr, value⟩, -, told⟩ := List.mem_filterMap.1 mem
  dsimp only at told
  generalize judge (tag.grammar place attributes) place.target.platform attr value = verdict at told
  cases verdict <;> cases told <;> simp

theorem lacking_mem_settle_iff {repairs : List Repair} (fresh : .lacking ∉ repairs) :
    .lacking ∈ (tag.settle e (tag.repairAttributes place attributes).1 repairs).repairs ↔ tag.Lacks place attributes := by
  have complete : (tag.mandatory.all (tag.repairAttributes place attributes).1.contains = true) ↔
      ¬tag.Lacks place attributes := by
    simp [Lacks, List.all_eq_true]
  rw [settle_repairs, List.mem_append]
  by_cases lacks : tag.Lacks place attributes
  · rw [if_neg fun all => complete.1 all lacks]
    simp [lacks]
  · rw [if_pos (complete.2 lacks)]
    simp [lacks, fresh]

theorem not_lacks_of_free (free : tag.allowed place.target.platform = none) : ¬tag.Lacks place attributes := by
  rintro ⟨attr, mem, -⟩
  rcases allowed_eq_none_iff.1 free with rfl | rfl | rfl | rfl <;> cases mem

theorem missingRequired_mem_iff_plan :
    .missingRequired e.name ∈ (tag.check place e).violations ↔
      .stripped "none" ∈ (tag.plan place e).repairs ∨ .lacking ∈ (tag.plan place e).repairs ∨
        ∃ locale, .unsupported locale ∈ (tag.plan place e).repairs := by
  have named : (tag.check place e).element.name = e.name := check_name
  rw [← named, check_eq_plan]
  exact Plan.missingRequired_mem_violations_iff

theorem missingRequired_not_mem_of_free (free : tag.allowed place.target.platform = none) :
    .missingRequired e.name ∉ (tag.check place e).violations := by
  rw [missingRequired_mem_iff_plan]
  rcases allowed_eq_none_iff.1 free with rfl | rfl | rfl | rfl
  · simp only [plan, planDesc]
    split <;> simp
  · simp [plan, planContainer]
  · simp [plan, planContainer]
  · simp [plan]

theorem missingRequired_mem_iff_of_listed (listed : tag.allowed place.target.platform = some names) :
    .missingRequired e.name ∈ (tag.check place e).violations ↔
      tag.Lacks place e.attributes ∨ ¬tag.KnownIn place.target.locale ∨ e.attributes.contains "none" = true := by
  rw [missingRequired_mem_iff_plan, knownIn_iff]
  by_cases supported : tag.supportedIn place.target.locale = true
  · have fresh : .lacking ∉ (tag.repairAttributes place e.attributes).2 := fun mem => (of_mem_repairAttributes mem).1 rfl
    have stripped : .stripped "none" ∈ (tag.plan place e).repairs ↔ e.attributes.contains "none" = true := by
      rw [plan_of_supported listed supported, settle_repairs, List.mem_append,
        stripped_none_mem_iff listed]
      split <;> simp
    have lacking : .lacking ∈ (tag.plan place e).repairs ↔ tag.Lacks place e.attributes := by
      rw [plan_of_supported listed supported, lacking_mem_settle_iff fresh]
    have available (locale : Locale) : .unsupported locale ∉ (tag.plan place e).repairs := by
      rw [plan_of_supported listed supported]
      intro mem
      rcases mem_settle_repairs mem with made | same
      · exact (of_mem_repairAttributes made).2 locale rfl
      · cases same
    simp only [stripped, lacking, available, supported, exists_false, or_false, not_true, false_or]
    exact or_comm
  · rw [plan_of_not_supported listed supported]
    simp [supported]

theorem display_unknownAttribute_iff (name attr : String) :
    (Violation.unknownAttribute name attr).display = "<" ++ name ++ ">: unsupported attribute " ++ attr ↔
      attr ≠ "none" := by
  have joined : ">: unsupported attribute " = ">: " ++ "unsupported attribute " := by decide
  by_cases reserved : attr = "none"
  · subst reserved
    simp [Violation.display, Violation.unknownAttribute, Violation.noAttribute, joined, String.append_assoc]
  · simp [Violation.display, Violation.unknownAttribute, Violation.noAttribute, reserved, joined, String.append_assoc]

/-- The record that something is missing stands for a missing attribute, for a locale that does not know the tag, or
for an unknown attribute called `none`. For no other unknown attribute is the record the same, or displayed like it. -/
theorem missingRequired_mem_check_iff (tag : Tag) (place : Place) (e : Element) :
    (.missingRequired e.name ∈ (tag.check place e).violations ↔
      tag.Lacks place e.attributes ∨ ¬tag.KnownIn place.target.locale ∨
        (tag.allowed place.target.platform ≠ none ∧ e.attributes.contains "none" = true)) ∧
    (∀ name other attr, Violation.unknownAttribute name attr = .missingRequired other ↔ name = other ∧ attr = "none") ∧
    ∀ name attr, (Violation.unknownAttribute name attr).display = "<" ++ name ++ ">: unsupported attribute " ++ attr ↔
      attr ≠ "none" := by
  refine ⟨?_, fun name other attr => ?_, display_unknownAttribute_iff⟩
  · cases listed : tag.allowed place.target.platform with
    | some names =>
      rw [missingRequired_mem_iff_of_listed listed]
      simp
    | none =>
      have known : tag.KnownIn place.target.locale := by
        rcases allowed_eq_none_iff.1 listed with rfl | rfl | rfl | rfl <;> simp [KnownIn]
      simp [missingRequired_not_mem_of_free listed, not_lacks_of_free listed, known]
  · simp [Violation.unknownAttribute, Violation.missingRequired, Violation.noAttribute]

/-- A paragraph must have no attribute and is known everywhere, and yet the record of its attribute `none` says that
something is missing. -/
theorem missingRequired_of_unknown_none :
    let place : Place := ⟨{}, some "speak", 0⟩
    let e : Element := { name := "p", attributes := Dictionary.empty.insert "none" "x" }
    (paragraph.check place e).violations = [.unknownAttribute "p" "none"] ∧
      ¬(.missingRequired e.name ∈ (paragraph.check place e).violations ↔
        paragraph.Lacks place e.attributes ∨ ¬paragraph.KnownIn place.target.locale) ∧
      (Violation.unknownAttribute "p" "none").display = "<p>: required attribute missing or tag unsupported" := by
  intro place e
  have recorded : (paragraph.check place e).violations = [.unknownAttribute "p" "none"] := by decide +kernel
  have complete : ¬(paragraph.Lacks place e.attributes ∨ ¬paragraph.KnownIn place.target.locale) := by
    simp [Lacks, mandatory, KnownIn]
  refine ⟨recorded, fun same => complete (same.1 ?_), by decide⟩
  rw [recorded]
  exact List.mem_cons_self

end Tag

end SpeechMarkup
