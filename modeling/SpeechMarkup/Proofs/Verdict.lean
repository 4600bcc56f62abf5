import SpeechMarkup.Proofs.Conformance
import SpeechMarkup.Proofs.Plan

/-! The verdicts on attributes. An attribute is accepted exactly where the tag keeps it and the value lies in its
domain. The repair of the attributes leaves accepted ones only, and it is silent and changes nothing exactly where
all of them were accepted before. -/

namespace SpeechMarkup

theorem judge_eq_accepted_iff {grammar : List (String × AttributeRule)} {platform : Platform} {attr value : String} :
    judge grammar platform attr value = .accepted ↔
      ∃ rule, grammar.lookup attr = some rule ∧ rule.accepts platform value = true := by
  unfold judge
  cases grammar.lookup attr with
  | none => simp
  | some rule =>
    cases accepted : rule.accepts platform value with
    | true => simp [accepted]
    | false => cases instead : rule.fallback.instead value <;> simp [accepted, instead]

theorem mem_of_lookup {α : Type} {entries : List (String × α)} {key : String} {value : α}
    (h : entries.lookup key = some value) : (key, value) ∈ entries := by
  obtain ⟨front, back, same, -⟩ := List.lookup_eq_some_iff.1 h
  simp [same]

theorem lookup_agrees {platform : Platform} {grammar : List (String × AttributeRule)}
    {domains : List (String × (String → Prop))} (h : List.Forall₂ (Agrees platform) grammar domains)
    (attr value : String) :
    (∃ rule, grammar.lookup attr = some rule ∧ rule.accepts platform value = true) ↔
      ∃ domain, domains.lookup attr = some domain ∧ domain value := by
  induction h with
  | nil => simp
  | @cons entry domain _ _ agrees _ ih =>
    obtain ⟨name, rule⟩ := entry
    obtain ⟨_, texts⟩ := domain
    obtain ⟨rfl, same⟩ := agrees
    by_cases here : attr = name
    · simpa [List.lookup_cons, here] using same value
    · simpa [List.lookup_cons, beq_false_of_ne here] using ih

theorem Verdict.repair_eq_none_iff {verdict : Verdict} {attr value : String} :
    verdict.repair attr value = none ↔ verdict = .accepted := by
  cases verdict <;> simp [repair]

namespace Tag

def Accepts (tag : Tag) (place : Place) (attributes : Attributes) : Prop :=
  ∀ attr value, attributes.get? attr = some value →
    judge (tag.grammar place attributes) place.target.platform attr value = .accepted

/-- Accepted attributes are those on the whitelist whose values lie in their domains. -/
theorem accepts_iff {tag : Tag} (place : Place) {names : List String}
    (h : tag.allowed place.target.platform = some names) (attributes : Attributes) :
    tag.Accepts place attributes ↔
      (∀ entry ∈ attributes.entries, entry.1 ∈ names) ∧
        ∀ entry ∈ attributes.entries, ∀ domain,
          (tag.domains place.target attributes).lookup entry.1 = some domain → domain entry.2 := by
  have verdict (attr value : String) :
      judge (tag.grammar place attributes) place.target.platform attr value = .accepted ↔
        attr ∈ names ∧
          ∀ domain, (tag.domains place.target attributes).lookup attr = some domain → domain value := by
    rw [judge_eq_accepted_iff, lookup_agrees (tag.grammar_agrees place attributes),
      mem_allowed_iff h attributes attr]
    constructor
    · intro ⟨domain, found, inside⟩
      refine ⟨⟨domain, found⟩, fun other same => ?_⟩
      rw [found] at same
      cases same
      exact inside
    · intro ⟨⟨domain, found⟩, inside⟩
      exact ⟨domain, found, inside domain found⟩
  simp only [Accepts, verdict, Dictionary.get?_eq_some_iff]
  constructor
  · intro all
    exact ⟨fun entry mem => (all entry.1 entry.2 mem).1, fun entry mem => (all entry.1 entry.2 mem).2⟩
  · intro ⟨kept, valued⟩ attr value mem
    exact ⟨kept (attr, value) mem, valued (attr, value) mem⟩

theorem mem_inOrder {tag : Tag} {attributes : Attributes} {entry : String × String} :
    entry ∈ tag.inOrder attributes ↔ entry ∈ attributes.entries := by
  simp only [inOrder, List.mem_append, List.mem_filter, decide_eq_true_eq]
  tauto

/-- The rules depend on the other attributes in one case only: whether a thing is said as a date. -/
theorem grammar_congr {tag : Tag} {place : Place} {a b : Attributes}
    (h : tag = sayAs → (a.get? "interpret-as" = some "date" ↔ b.get? "interpret-as" = some "date")) :
    tag.grammar place a = tag.grammar place b := by
  cases tag with
  | sayAs => simp only [grammar, h rfl]
  | _ => rfl

section Repair

variable {tag : Tag} {place : Place} {attributes : Attributes}

theorem get?_repairAttributes (attr : String) :
    (tag.repairAttributes place attributes).1.get? attr = (attributes.get? attr).bind fun value =>
      (judge (tag.grammar place attributes) place.target.platform attr value).outcome value :=
  Dictionary.get?_filterMap ..

theorem get?_src_repairAttributes :
    (audio.repairAttributes place attributes).1.get? "src" = attributes.get? "src" := by
  have free : (audio.grammar place attributes).lookup "src" = some Grammar.free := by
    simp only [grammar, Grammar.audio]
    split <;> rfl
  have accepted (value : String) :
      judge (audio.grammar place attributes) place.target.platform "src" value = .accepted :=
    judge_eq_accepted_iff.2 ⟨_, free, rfl⟩
  rw [get?_repairAttributes]
  cases attributes.get? "src" with
  | none => rfl
  | some value => rw [Option.bind_some, accepted]; rfl

theorem judge_outcome (supported : tag.supportedIn place.target.locale = true) {attr old new : String}
    (h : (judge (tag.grammar place attributes) place.target.platform attr old).outcome old = some new) :
    judge (tag.grammar place attributes) place.target.platform attr new = .accepted := by
  rw [judge_eq_accepted_iff]
  unfold judge at h
  cases found : (tag.grammar place attributes).lookup attr with
  | none => simp [found, Verdict.outcome] at h
  | some rule =>
    refine ⟨rule, rfl, ?_⟩
    rw [found] at h
    cases accepted : rule.accepts place.target.platform old with
    | true =>
      simp only [accepted, if_true, Verdict.outcome, Option.some.injEq] at h
      rwa [← h]
    | false =>
      cases instead : rule.fallback.instead old with
      | none => simp [accepted, instead, Verdict.outcome] at h
      | some value =>
        simp only [accepted, instead, Bool.false_eq_true, if_false, Verdict.outcome, Option.some.injEq] at h
        exact tag.sound_grammar place attributes supported _ (mem_of_lookup found) old new (h ▸ instead)

theorem grammar_repairAttributes :
    tag.grammar place (tag.repairAttributes place attributes).1 = tag.grammar place attributes := by
  refine grammar_congr fun same => ?_
  subst same
  have verdict (value : String) :
      judge (sayAs.grammar place attributes) place.target.platform "interpret-as" value =
        if (Grammar.interpretations place.target.platform).contains value then .accepted
        else .replace "cardinal" := by
    simp [judge, grammar, Grammar.sayAs, Grammar.keyword, AttributeRule.accepts, Form.accepts, Fallback.instead]
  -- What replaces a refused interpretation is no date, and "date" itself is never refused.
  have date : (Grammar.interpretations place.target.platform).contains "date" = true := by
    cases place.target.platform <;> decide
  rw [get?_repairAttributes]
  cases attributes.get? "interpret-as" with
  | none => simp
  | some value =>
    rw [Option.bind_some, verdict]
    by_cases isDate : value = "date"
    · rw [isDate, if_pos date]
      simp [Verdict.outcome]
    · split <;> simp [Verdict.outcome, isDate]

theorem accepts_repairAttributes (supported : tag.supportedIn place.target.locale = true) :
    tag.Accepts place (tag.repairAttributes place attributes).1 := by
  intro attr value found
  rw [get?_repairAttributes] at found
  obtain ⟨old, -, left⟩ := Option.bind_eq_some_iff.1 found
  rw [grammar_repairAttributes]
  exact judge_outcome supported left

theorem repairAttributes_of_accepts (h : tag.Accepts place attributes) :
    (tag.repairAttributes place attributes).1 = attributes := by
  have unchanged (entries : List (String × String)) (all : ∀ entry ∈ entries, entry ∈ attributes.entries) :
      entries.filterMap (fun e =>
        ((judge (tag.grammar place attributes) place.target.platform e.1 e.2).outcome e.2).map (e.1, ·)) = entries := by
    induction entries with
    | nil => rfl
    | cons entry rest ih =>
      have accepted := h entry.1 entry.2 (Dictionary.get?_eq_some_iff.2 (all entry List.mem_cons_self))
      rw [List.filterMap_cons_some (b := entry) (by simp [accepted, Verdict.outcome]),
        ih fun e mem => all e (List.mem_cons_of_mem _ mem)]
  exact Dictionary.ext (unchanged attributes.entries fun _ mem => mem)

theorem repairAttributes_eq_nil_iff :
    (tag.repairAttributes place attributes).2 = [] ↔ tag.Accepts place attributes := by
  simp only [repairAttributes, List.filterMap_eq_nil_iff, mem_inOrder, Verdict.repair_eq_none_iff, Accepts,
    Dictionary.get?_eq_some_iff]
  exact ⟨fun all attr value mem => all (attr, value) mem, fun all entry mem => all entry.1 entry.2 mem⟩

end Repair

end Tag

end SpeechMarkup
