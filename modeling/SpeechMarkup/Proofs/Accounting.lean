import SpeechMarkup.Proofs.ByteOrder
import SpeechMarkup.Proofs.RuleOutcome

/-! The account of a repair. What becomes of each attribute of an element is told by the names that its tag keeps and by
the domains of their values: others go, accepted values stay, refused ones are replaced or go, and what is missing is
filled in. The records tell exactly this, attribute by attribute in the order of their names, and at the end whether
anything was missing. -/

namespace SpeechMarkup

theorem lookup_isSome_agrees {platform : Platform} {grammar : List (String × AttributeRule)}
    {domains : List (String × (String → Prop))} (h : List.Forall₂ (Agrees platform) grammar domains) (attr : String) :
    (grammar.lookup attr).isSome = (domains.lookup attr).isSome := by
  induction h with
  | nil => rfl
  | @cons entry domain _ _ agrees _ ih =>
    obtain ⟨name, rule⟩ := entry
    obtain ⟨_, texts⟩ := domain
    obtain ⟨rfl, -⟩ := agrees
    by_cases here : attr = name
    · simp [here]
    · simpa [List.lookup_cons, beq_false_of_ne here] using ih

/-- The records about attributes of an element with this name, one after the other. -/
inductive Findings (name : String) (names : List String) (refuses : String → String → Prop) :
    List (String × String) → List Violation → Prop
  | nil : Findings name names refuses [] []
  | unknown {attr value : String} {entries : List (String × String)} {found : List Violation} : attr ∉ names →
    Findings name names refuses entries found →
    Findings name names refuses ((attr, value) :: entries) (.unknownAttribute name attr :: found)
  | invalid {attr value : String} {entries : List (String × String)} {found : List Violation} : attr ∈ names →
    refuses attr value → Findings name names refuses entries found →
    Findings name names refuses ((attr, value) :: entries) (.invalidValue name attr value :: found)
  | accepted {attr value : String} {entries : List (String × String)} {found : List Violation} : attr ∈ names →
    ¬ refuses attr value → Findings name names refuses entries found →
    Findings name names refuses ((attr, value) :: entries) found

namespace Tag

/-- The tag has a domain for the attribute on this target, for an element with these attributes, and the value lies
outside it. -/
def Refuses (tag : Tag) (target : Target) (attributes : Attributes) (attr value : String) : Prop :=
  ∃ domain, (tag.domains target attributes).lookup attr = some domain ∧ ¬ domain value

/-- What a thing is said as is looked at before all else. -/
def lookedAt (tag : Tag) (entries : List (String × String)) : List (String × String) :=
  if tag = sayAs then
    entries.filter (fun e => e.1 = "interpret-as") ++ entries.filter (fun e => e.1 ≠ "interpret-as")
  else entries

/-- What comes of an element with a tag that keeps these names. -/
structure Accounted (tag : Tag) (target : Target) (names : List String) (e : Element) (outcome : Outcome) : Prop where
  stripped : ∀ attr, attr ∉ names → outcome.element.attributes.get? attr = none
  accepted : ∀ attr ∈ names, ∀ value, e.attributes.get? attr = some value →
    ¬ tag.Refuses target outcome.element.attributes attr value → outcome.element.attributes.get? attr = some value
  refused : ∀ attr ∈ names, ∀ value, e.attributes.get? attr = some value →
    tag.Refuses target outcome.element.attributes attr value → outcome.element.attributes.get? attr ≠ some value
  filled : ∀ attr, e.attributes.get? attr = none →
    outcome.element.attributes.get? attr = (tag.defaults e.attributes).lookup attr
  records : ∃ entries found, e.attributes.Lists entries ∧
    Findings e.name names (tag.Refuses target outcome.element.attributes) (tag.lookedAt entries) found ∧
    outcome.violations =
      found ++ if tag.mandatory.all e.attributes.contains then [] else [.missingRequired e.name]
  action : outcome.action = if tag = audio ∧ e.attributes.get? "src" = none then .remove else .keep

variable {tag : Tag} {place : Place} {attributes : Attributes} {names : List String}

theorem inOrder_eq_lookedAt : tag.inOrder attributes = tag.lookedAt attributes.entries := by
  cases tag with
  | sayAs => simp [inOrder, leading, lookedAt, eq_comm]
  | _ => simp [inOrder, leading, lookedAt]

theorem lookup_grammar_eq_none_iff (listed : tag.allowed place.target.platform = some names) (attributes : Attributes)
    (attr : String) :
    (tag.grammar place attributes).lookup attr = none ↔ attr ∉ names := by
  rw [mem_allowed_iff listed attributes attr, ← Option.isSome_iff_exists,
    ← lookup_isSome_agrees (tag.grammar_agrees place attributes) attr, Bool.not_eq_true, Option.isSome_eq_false_iff,
    Option.isNone_iff_eq_none]

theorem judge_eq_unknown_iff (listed : tag.allowed place.target.platform = some names) (attributes : Attributes)
    (attr value : String) :
    judge (tag.grammar place attributes) place.target.platform attr value = .unknown ↔ attr ∉ names := by
  rw [← lookup_grammar_eq_none_iff listed attributes attr]
  unfold judge
  cases (tag.grammar place attributes).lookup attr with
  | none => simp
  | some rule =>
    cases accepted : rule.accepts place.target.platform value with
    | true => simp [accepted]
    | false => cases instead : rule.fallback.instead value <;> simp [accepted, instead]

theorem refuses_iff (listed : tag.allowed place.target.platform = some names) (attributes : Attributes) {attr : String}
    (mem : attr ∈ names) (value : String) :
    tag.Refuses place.target attributes attr value ↔
      judge (tag.grammar place attributes) place.target.platform attr value ≠ .accepted := by
  obtain ⟨domain, found⟩ := (mem_allowed_iff listed attributes attr).1 mem
  rw [Ne, judge_eq_accepted_iff, lookup_agrees (tag.grammar_agrees place attributes)]
  simp [Refuses, found]

theorem contains_repairAttributes {attr : String} {rule : AttributeRule}
    (found : (tag.grammar place attributes).lookup attr = some rule)
    (lasting : ∀ value, rule.accepts place.target.platform value = true ∨ (rule.fallback.instead value).isSome = true) :
    (tag.repairAttributes place attributes).1.contains attr = attributes.contains attr := by
  rw [Dictionary.contains, Dictionary.contains, get?_repairAttributes]
  cases attributes.get? attr with
  | none => rfl
  | some value =>
    rw [Option.bind_some, judge, found]
    rcases lasting value with accepted | replaced
    · simp [accepted, Verdict.outcome]
    · obtain ⟨new, instead⟩ := Option.isSome_iff_exists.1 replaced
      cases accepted : rule.accepts place.target.platform value <;> simp [accepted, instead, Verdict.outcome]

theorem contains_repairAttributes_of_mandatory (place : Place) (attributes : Attributes) {attr : String}
    (mem : attr ∈ tag.mandatory) :
    (tag.repairAttributes place attributes).1.contains attr = attributes.contains attr := by
  by_cases isAudio : tag = audio
  · subst isAudio
    rw [List.mem_singleton.1 mem, Dictionary.contains, get?_src_repairAttributes, Dictionary.contains]
  · rw [mandatory_eq_required isAudio] at mem
    obtain ⟨entry, inside, rfl⟩ := List.mem_map.1 mem
    obtain ⟨words, found⟩ := lookup_required inside place attributes
    exact contains_repairAttributes found fun _ => .inr rfl

theorem defaults_repairAttributes :
    tag.defaults (tag.repairAttributes place attributes).1 = tag.defaults attributes := by
  by_cases isPause : tag = pause
  · subst isPause
    have strengthRule : (pause.grammar place attributes).lookup "strength" =
        some (Grammar.keyword Grammar.pauseStrengths "medium") := rfl
    have timeRule : (pause.grammar place attributes).lookup "time" =
        some ⟨[.duration (some Grammar.longestPause)], .fixed "10s"⟩ := rfl
    have strength := contains_repairAttributes strengthRule fun _ => .inr rfl
    have time := contains_repairAttributes timeRule fun _ => .inr rfl
    simp only [defaults, strength, time]
  · rw [defaults_eq_required isPause, defaults_eq_required isPause]

section Settled

variable {e : Element} {repairs : List Repair}

theorem get?_settle_repairAttributes (attr : String) :
    (tag.settle e (tag.repairAttributes place attributes).1 repairs).element.attributes.get? attr =
      ((tag.repairAttributes place attributes).1.get? attr).or ((tag.defaults attributes).lookup attr) := by
  rw [get?_settle, defaults_repairAttributes]

theorem settle_repairAttributes_repairs :
    (tag.settle e (tag.repairAttributes place attributes).1 repairs).repairs =
      repairs ++ if tag.mandatory.all attributes.contains then [] else [.lacking] := by
  have same : tag.mandatory.all (tag.repairAttributes place attributes).1.contains =
      tag.mandatory.all attributes.contains := by
    rw [Bool.eq_iff_iff, List.all_eq_true, List.all_eq_true]
    exact forall₂_congr fun attr mem => by rw [contains_repairAttributes_of_mandatory place attributes mem]
  rw [settle_repairs, same]

theorem settle_repairAttributes_action :
    (tag.settle e (tag.repairAttributes place attributes).1 repairs).action =
      if tag = audio ∧ attributes.get? "src" = none then .remove else .keep := by
  rw [settle_action]
  refine if_congr (and_congr_right fun isAudio => ?_) rfl rfl
  subst isAudio
  rw [get?_src_repairAttributes]

theorem grammar_settle_repairAttributes :
    tag.grammar place (tag.settle e (tag.repairAttributes place attributes).1 repairs).element.attributes =
      tag.grammar place attributes := by
  refine (grammar_congr fun isSayAs => ?_).trans grammar_repairAttributes
  subst isSayAs
  have nothing : sayAs.defaults attributes = [] := rfl
  rw [get?_settle_repairAttributes, nothing, List.lookup_nil, Option.or_none]

end Settled

theorem mem_of_lookup_defaults (listed : tag.allowed place.target.platform = some names) {attr value : String}
    (found : (tag.defaults attributes).lookup attr = some value) : attr ∈ names := by
  have entry := mem_of_lookup found
  by_cases isPause : tag = pause
  · subst isPause
    cases listed
    simp only [defaults] at entry
    split at entry
    · cases entry
    · rw [List.mem_singleton] at entry
      cases entry
      exact List.mem_cons_self
  · rw [defaults_eq_required isPause] at entry
    obtain ⟨words, rule⟩ := lookup_required entry place attributes
    refine (mem_allowed_iff listed attributes attr).2 (Option.isSome_iff_exists.1 ?_)
    rw [← lookup_isSome_agrees (tag.grammar_agrees place attributes), rule]
    rfl

theorem findings_of_judge (listed : tag.allowed place.target.platform = some names) (attributes : Attributes)
    (name : String) (entries : List (String × String)) :
    Findings name names (tag.Refuses place.target attributes) entries
      ((entries.filterMap fun (attr, value) =>
        (judge (tag.grammar place attributes) place.target.platform attr value).repair attr value).map
          (Repair.violation name)) := by
  induction entries with
  | nil => exact .nil
  | cons entry entries ih =>
    obtain ⟨attr, value⟩ := entry
    have unknown := judge_eq_unknown_iff listed attributes attr value
    have refused (known : attr ∈ names) := refuses_iff listed attributes known value
    cases verdict : judge (tag.grammar place attributes) place.target.platform attr value with
    | unknown =>
      rw [List.filterMap_cons_some (b := .stripped attr) (by simp [verdict, Verdict.repair])]
      exact .unknown (unknown.1 verdict) ih
    | accepted =>
      rw [List.filterMap_cons_none (by simp [verdict, Verdict.repair])]
      have known : attr ∈ names := by simpa [verdict] using unknown
      exact .accepted known (by simpa [verdict] using refused known) ih
    | replace new =>
      rw [List.filterMap_cons_some (b := .replaced attr value new) (by simp [verdict, Verdict.repair])]
      have known : attr ∈ names := by simpa [verdict] using unknown
      exact .invalid known ((refused known).2 (by simp [verdict])) ih
    | discard =>
      rw [List.filterMap_cons_some (b := .discarded attr value) (by simp [verdict, Verdict.repair])]
      have known : attr ∈ names := by simpa [verdict] using unknown
      exact .invalid known ((refused known).2 (by simp [verdict])) ih

/-- The account is right for every tag with a list of names, on all elements. -/
theorem check_accounted (tag : Tag) (place : Place) (e : Element) {names : List String}
    (listed : tag.allowed place.target.platform = some names) (known : tag.KnownIn place.target.locale) :
    tag.Accounted place.target names e (tag.check place e) := by
  have supported := knownIn_iff.1 known
  have settled := check_of_supported listed supported e
  have name : (tag.check place e).element.name = e.name := check_name
  generalize tag.check place e = outcome at settled name ⊢
  have changed (attr : String) : outcome.element.attributes.get? attr =
      ((tag.repairAttributes place e.attributes).1.get? attr).or ((tag.defaults e.attributes).lookup attr) := by
    rw [settled, Plan.element_outcome, get?_settle_repairAttributes]
  have grammar : tag.grammar place outcome.element.attributes = tag.grammar place e.attributes := by
    rw [settled, Plan.element_outcome, grammar_settle_repairAttributes]
  have accepts : tag.Accepts place outcome.element.attributes := by
    rw [settled]
    exact accepts_settle supported (accepts_repairAttributes supported)
  have refuses {attr value : String} (mem : attr ∈ names) :
      tag.Refuses place.target outcome.element.attributes attr value ↔
        judge (tag.grammar place e.attributes) place.target.platform attr value ≠ .accepted := by
    rw [refuses_iff listed _ mem, grammar]
  constructor
  case stripped =>
    intro attr stranger
    have none : (tag.defaults e.attributes).lookup attr = none :=
      Option.eq_none_iff_forall_ne_some.2 fun value found => stranger (mem_of_lookup_defaults listed found)
    rw [changed, none, Option.or_none, get?_repairAttributes]
    cases e.attributes.get? attr with
    | none => rfl
    | some value => rw [Option.bind_some, (judge_eq_unknown_iff listed _ attr value).2 stranger]; rfl
  case accepted =>
    intro attr mem value found accepted
    rw [refuses mem, not_not] at accepted
    rw [changed, get?_repairAttributes, found, Option.bind_some, accepted]
    rfl
  case refused =>
    intro attr mem value _ refused left
    rw [refuses_iff listed _ mem] at refused
    exact refused (accepts attr value left)
  case filled =>
    intro attr missing
    rw [changed, get?_repairAttributes, missing]
    rfl
  case records =>
    have findings : Findings e.name names (tag.Refuses place.target outcome.element.attributes)
        (tag.lookedAt e.attributes.entries)
        ((tag.repairAttributes place e.attributes).2.map (Repair.violation e.name)) := by
      have told := findings_of_judge listed outcome.element.attributes e.name (tag.inOrder e.attributes)
      rw [grammar] at told
      rw [← inOrder_eq_lookedAt]
      exact told
    refine ⟨e.attributes.entries, _, e.attributes.lists_entries, findings, ?_⟩
    rw [settled, Plan.violations_outcome, ← Plan.element_outcome, ← settled, name, settle_repairAttributes_repairs,
      List.map_append]
    split <;> rfl
  case action => rw [settled, Plan.action_outcome, settle_repairAttributes_action]

/-- What is said comes first in the records, and its correction settles what the format is held against. -/
theorem check_accounted_sayAs :
    let place : Place := ⟨{ platform := .google }, some "speak", 0⟩
    let names := ["detail", "format", "interpret-as"]
    let e : Element := {
      name := "say-as"
      attributes := (((Dictionary.empty.insert "interpret-as" "dates").insert "format" "mdy").insert "lang" "en").insert
        "detail" "2" }
    let outcome := sayAs.check place e
    sayAs.allowed place.target.platform = some names ∧ sayAs.KnownIn place.target.locale ∧
      sayAs.Accounted place.target names e outcome ∧
      outcome.element.attributes =
        ((Dictionary.empty.insert "interpret-as" "cardinal").insert "format" "hms12").insert "detail" "2" ∧
      outcome.violations = [.invalidValue "say-as" "interpret-as" "dates", .invalidValue "say-as" "format" "mdy",
        .unknownAttribute "say-as" "lang"] :=
  ⟨rfl, by simp [KnownIn], check_accounted sayAs _ _ rfl (by simp [KnownIn]), by decide +kernel, by decide +kernel⟩

end Tag

end SpeechMarkup
