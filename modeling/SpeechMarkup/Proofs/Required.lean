import SpeechMarkup.Proofs.Verdict

/-! What is missing of an element: the attributes that are filled in, the length of a pause, and the recording that
goes without a source. Where nothing is missing nothing is changed, and what is filled in is accepted. -/

namespace SpeechMarkup

theorem Dictionary.get?_foldl_insertNew {α : Type} (defaults : List (String × α)) (d : Dictionary α) (k : String) :
    (defaults.foldl (fun d (key, value) => d.insertNew key value) d).get? k = (d.get? k).or (defaults.lookup k) := by
  induction defaults generalizing d with
  | nil => simp
  | cons entry rest ih =>
    obtain ⟨key, value⟩ := entry
    rw [List.foldl_cons, ih, get?_insertNew, Option.or_assoc]
    by_cases same : k = key
    · simp [same]
    · simp [List.lookup_cons, same, beq_false_of_ne same]

namespace Tag

variable {tag : Tag} {place : Place} {attributes : Attributes}

theorem mandatory_eq_required (h : tag ≠ audio) : tag.mandatory = tag.required.map Prod.fst := by
  cases tag with
  | audio => exact absurd rfl h
  | _ => rfl

theorem lookup_required {entry : String × String} (h : entry ∈ tag.required) (place : Place)
    (attributes : Attributes) :
    ∃ words, (tag.grammar place attributes).lookup entry.1 = some (Grammar.keyword words entry.2) := by
  obtain ⟨attr, value⟩ := entry
  cases tag with
  | amazonEmotion =>
    simp only [required, List.mem_cons, List.not_mem_nil, or_false, Prod.mk.injEq] at h
    rcases h with ⟨rfl, rfl⟩ | ⟨rfl, rfl⟩ <;> exact ⟨_, rfl⟩
  | amazonEffect | amazonDomain | emphasis | lang =>
    simp only [required, List.mem_singleton, Prod.mk.injEq] at h
    obtain ⟨rfl, rfl⟩ := h
    exact ⟨_, rfl⟩
  | _ => simp [required] at h

theorem judge_required (supported : tag.supportedIn place.target.locale = true) {attr value : String}
    (h : tag.required.lookup attr = some value) (attributes : Attributes) :
    judge (tag.grammar place attributes) place.target.platform attr value = .accepted := by
  obtain ⟨words, rule⟩ := lookup_required (mem_of_lookup h) place attributes
  refine judge_eq_accepted_iff.2 ⟨_, rule, ?_⟩
  exact tag.sound_grammar place attributes supported _ (mem_of_lookup rule) "" value rfl

theorem fillRequired_of_complete (h : ∀ attr ∈ tag.required.map Prod.fst, attributes.contains attr = true) :
    tag.fillRequired attributes = (attributes, []) := by
  refine if_pos (List.all_eq_true.2 fun entry mem => ?_)
  exact h entry.1 (List.mem_map_of_mem mem)

theorem fillRequired_repairs :
    (tag.fillRequired attributes).2 =
      if (tag.required.map Prod.fst).all attributes.contains then [] else [.lacking] := by
  rw [fillRequired, List.all_map]
  exact apply_ite Prod.snd ..

theorem get?_fillRequired (key : String) :
    (tag.fillRequired attributes).1.get? key = (attributes.get? key).or (tag.required.lookup key) := by
  unfold fillRequired
  split
  · next complete =>
    cases found : attributes.get? key with
    | some value => rfl
    | none =>
      cases missing : tag.required.lookup key with
      | none => rfl
      | some value =>
        have := List.all_eq_true.1 complete _ (mem_of_lookup missing)
        simp [Dictionary.contains, found] at this
  · exact Dictionary.get?_foldl_insertNew ..

theorem contains_fillRequired {attr : String} (h : attr ∈ tag.required.map Prod.fst) :
    (tag.fillRequired attributes).1.contains attr = true := by
  obtain ⟨entry, mem, rfl⟩ := List.mem_map.1 h
  have found : (tag.required.lookup entry.1).isSome = true := by
    rw [List.lookup_isSome_iff]
    exact ⟨entry, mem, beq_self_eq_true _⟩
  rw [Dictionary.contains, get?_fillRequired, Option.isSome_or, found, Bool.or_true]

theorem accepts_fillRequired (supported : tag.supportedIn place.target.locale = true)
    (h : tag.Accepts place attributes) : tag.Accepts place (tag.fillRequired attributes).1 := by
  by_cases date : tag = sayAs
  · subst date
    rwa [fillRequired_of_complete (by simp [required])]
  · have same : tag.grammar place (tag.fillRequired attributes).1 = tag.grammar place attributes :=
      grammar_congr fun isDate => absurd isDate date
    intro attr value found
    rw [same]
    rw [get?_fillRequired, Option.or_eq_some_iff] at found
    rcases found with present | ⟨-, filled⟩
    · exact h attr value present
    · exact judge_required supported filled attributes

theorem accepts_fillPause (h : pause.Accepts place attributes) : pause.Accepts place (fillPause attributes) := by
  unfold fillPause
  split
  · exact h
  · intro attr value found
    rw [Dictionary.get?_insert] at found
    split at found
    · next strength =>
      cases found
      rw [strength, judge_eq_accepted_iff]
      exact ⟨_, rfl, by cases place.target.platform <;> decide⟩
    · exact h attr value found

theorem contains_fillPause :
    (fillPause attributes).contains "strength" = true ∨ (fillPause attributes).contains "time" = true := by
  unfold fillPause
  split
  · next present => exact Bool.or_eq_true_iff.1 present
  · refine .inl ?_
    rw [Dictionary.contains, Dictionary.get?_insert]
    rfl

/-- The attributes that are filled in where they are missing, with their values. A pause needs one only if it says
nothing about its length, and no source is made up for a recording. -/
def defaults (tag : Tag) (before : Attributes) : List (String × String) :=
  match tag with
  | amazonEffect => [("name", "whispered")]
  | amazonEmotion => [("name", "excited"), ("intensity", "medium")]
  | amazonDomain => [("name", "news")]
  | emphasis => [("level", "moderate")]
  | lang => [("xml:lang", "en-US")]
  | pause => if before.contains "strength" || before.contains "time" then [] else [("strength", "medium")]
  | _ => []

theorem defaults_eq_required (notPause : tag ≠ pause) : tag.defaults attributes = tag.required := by
  cases tag with
  | pause => exact absurd rfl notPause
  | _ => rfl

theorem get?_fillPause (attr : String) :
    (fillPause attributes).get? attr = (attributes.get? attr).or ((pause.defaults attributes).lookup attr) := by
  simp only [fillPause, defaults]
  split
  · simp
  · next silent =>
    rw [Dictionary.get?_insert]
    by_cases here : attr = "strength"
    · have none : attributes.get? "strength" = none := by
        rw [Bool.or_eq_true, not_or] at silent
        simpa [Dictionary.contains] using silent.1
      simp [here, none]
    · simp [List.lookup_cons, here, beq_false_of_ne here]

section Settle

variable {e : Element} {repairs : List Repair}

theorem settle_of_ne (notAudio : tag ≠ audio) (notPause : tag ≠ pause) :
    tag.settle e attributes repairs =
      ⟨{ e with attributes := (tag.fillRequired attributes).1 }, repairs ++ (tag.fillRequired attributes).2,
        .keep⟩ := by
  cases tag with
  | audio => exact absurd rfl notAudio
  | pause => exact absurd rfl notPause
  | _ => rfl

theorem get?_settle (attr : String) : (tag.settle e attributes repairs).element.attributes.get? attr =
    (attributes.get? attr).or ((tag.defaults attributes).lookup attr) := by
  by_cases isAudio : tag = audio
  · subst isAudio
    simp only [settle]
    split <;> simp [defaults]
  · by_cases isPause : tag = pause
    · subst isPause
      exact get?_fillPause attr
    · rw [settle_of_ne isAudio isPause, get?_fillRequired, defaults_eq_required isPause]

theorem settle_repairs : (tag.settle e attributes repairs).repairs =
    repairs ++ if tag.mandatory.all attributes.contains then [] else [.lacking] := by
  by_cases isAudio : tag = audio
  · subst isAudio
    simp only [settle, mandatory, List.all_cons, List.all_nil, Bool.and_true]
    split <;> simp
  · by_cases isPause : tag = pause
    · subst isPause
      simp [settle, mandatory]
    · rw [settle_of_ne isAudio isPause, mandatory_eq_required isAudio, fillRequired_repairs]

theorem settle_action : (tag.settle e attributes repairs).action =
    if tag = audio ∧ attributes.get? "src" = none then .remove else .keep := by
  by_cases isAudio : tag = audio
  · subst isAudio
    cases source : attributes.get? "src" <;> simp [settle, Dictionary.contains, source]
  · rw [if_neg fun both => isAudio both.1]
    by_cases isPause : tag = pause
    · subst isPause
      rfl
    · rw [settle_of_ne isAudio isPause]

theorem settle_action_ne_unwrap : (tag.settle e attributes repairs).action ≠ .unwrap := by
  rw [settle_action]
  split <;> simp

theorem settle_repairs_eq_nil_iff : (tag.settle e attributes repairs).repairs = [] ↔
    repairs = [] ∧ ∀ attr ∈ tag.mandatory, attributes.contains attr = true := by
  rw [settle_repairs, List.append_eq_nil_iff, ite_eq_left_iff, List.all_eq_true]
  simp

theorem mem_settle_repairs {repair : Repair} (mem : repair ∈ (tag.settle e attributes repairs).repairs) :
    repair ∈ repairs ∨ repair = .lacking := by
  rw [settle_repairs, List.mem_append] at mem
  refine mem.imp_right fun lacking => ?_
  split at lacking
  · cases lacking
  · exact List.mem_singleton.1 lacking

theorem settle_of_complete (complete : ∀ attr ∈ tag.mandatory, attributes.contains attr = true)
    (pauseLength : tag = pause → attributes.contains "strength" = true ∨ attributes.contains "time" = true) :
    tag.settle e attributes repairs = ⟨{ e with attributes }, repairs, .keep⟩ := by
  by_cases isAudio : tag = audio
  · subst isAudio
    have source := complete "src" List.mem_cons_self
    simp [settle, source]
  · by_cases isPause : tag = pause
    · subst isPause
      rw [settle, fillPause, if_pos (Bool.or_eq_true_iff.2 (pauseLength rfl))]
    · rw [mandatory_eq_required isAudio] at complete
      rw [settle_of_ne isAudio isPause, fillRequired_of_complete complete, List.append_nil]

theorem accepts_settle (supported : tag.supportedIn place.target.locale = true) (h : tag.Accepts place attributes) :
    tag.Accepts place (tag.settle e attributes repairs).element.attributes := by
  by_cases isAudio : tag = audio
  · subst isAudio
    simp only [settle]
    split <;> exact h
  · by_cases isPause : tag = pause
    · subst isPause
      exact accepts_fillPause h
    · rw [settle_of_ne isAudio isPause]
      exact accepts_fillRequired supported h

theorem settle_of_keep (supported : tag.supportedIn place.target.locale = true) (h : tag.Accepts place attributes)
    (keep : (tag.settle e attributes repairs).action = .keep) :
    tag.Accepts place (tag.settle e attributes repairs).element.attributes ∧
      (∀ attr ∈ tag.mandatory, (tag.settle e attributes repairs).element.attributes.contains attr = true) ∧
      (tag = pause → (tag.settle e attributes repairs).element.attributes.contains "strength" = true ∨
        (tag.settle e attributes repairs).element.attributes.contains "time" = true) := by
  refine ⟨accepts_settle supported h, ?_⟩
  by_cases isAudio : tag = audio
  · subst isAudio
    by_cases source : attributes.contains "src" = true
    · simp [settle, mandatory, source]
    · simp [settle, source] at keep
  · by_cases isPause : tag = pause
    · subst isPause
      exact ⟨by simp [mandatory], fun _ => contains_fillPause⟩
    · rw [settle_of_ne isAudio isPause, mandatory_eq_required isAudio]
      exact ⟨fun _ mem => contains_fillRequired mem, fun same => absurd same isPause⟩

end Settle

end Tag

end SpeechMarkup
