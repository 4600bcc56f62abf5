import SpeechMarkup.Proofs.Reported

/-! Targets in the order of what they admit. The generic platform is the baseline of all platforms, and the voices of
en-US know whatever the voices of another locale know. What conforms on one target conforms on every target above it.
So a document with which nothing is wrong on the lower target passes on the higher one as well, and comes out of both
checks the same. -/

namespace SpeechMarkup

def Platform.Within (narrow wide : Platform) : Prop :=
  narrow = .generic ∨ narrow = wide

def Locale.Within (narrow wide : Locale) : Prop :=
  wide = .enUS ∨ narrow = wide

structure Target.Within (narrow wide : Target) : Prop where
  platform : narrow.platform.Within wide.platform
  locale : narrow.locale.Within wide.locale

theorem Platform.Within.of_google {narrow wide : Platform} (h : narrow.Within wide) (google : narrow = .google) :
    wide = .google := by
  subst google
  exact (h.resolve_left (by decide)).symm

namespace Domain

/-- What one table admits for an attribute the other one admits for it too. -/
def Within (narrow wide : List (String × (String → Prop))) : Prop :=
  ∀ attr text, (∃ domain, narrow.lookup attr = some domain ∧ domain text) →
    ∃ domain, wide.lookup attr = some domain ∧ domain text

namespace Within

variable {narrow wide : List (String × (String → Prop))}

theorem refl (table : List (String × (String → Prop))) : Within table table :=
  fun _ _ admitted => admitted

theorem nil (table : List (String × (String → Prop))) : Within [] table := by
  rintro attr text ⟨domain, found, -⟩
  cases found

theorem cons {name : String} {domain wider : String → Prop} (texts : ∀ text, domain text → wider text)
    (h : Within narrow wide) : Within ((name, domain) :: narrow) ((name, wider) :: wide) := by
  intro attr text admitted
  by_cases same : attr = name
  · subst same
    simp only [List.lookup_cons_self, Option.some.injEq, exists_eq_left'] at admitted ⊢
    exact texts text admitted
  · simp only [List.lookup_cons, beq_false_of_ne same] at admitted ⊢
    exact h attr text admitted

end Within

variable {narrow wide : Platform}

theorem lasts_within (h : narrow.Within wide) {cs : List Char} {millis : Nat} (lasts : Lasts narrow cs millis) :
    Lasts wide cs millis := by
  cases lasts with
  | milliseconds digits => exact .milliseconds digits
  | seconds wellFormed => exact .seconds wellFormed
  | bare google wellFormed => exact .bare (h.of_google google) wellFormed

theorem isDurationUpTo_within (h : narrow.Within wide) {ceiling : Nat} (text : String)
    (duration : IsDurationUpTo ceiling narrow text) : IsDurationUpTo ceiling wide text := by
  obtain ⟨millis, lasts, short⟩ := duration
  exact ⟨millis, lasts_within h lasts, short⟩

theorem isDuration_within (h : narrow.Within wide) (text : String) (duration : IsDuration narrow text) :
    IsDuration wide text :=
  duration.imp_right (isDurationUpTo_within h text)

theorem audio_within (h : narrow.Within wide) : Within (audio narrow) (audio wide) := by
  rcases h with rfl | rfl
  · rintro attr text ⟨domain, found, -⟩
    have source : attr = "src" := by
      by_contra other
      simp [audio, List.lookup_cons, beq_false_of_ne other] at found
    subst source
    refine ⟨fun _ => True, ?_, trivial⟩
    unfold audio
    split <;> rfl
  · exact .refl _

theorem media_within (h : narrow.Within wide) : Within (media narrow) (media wide) := by
  have duration := isDuration_within h
  have rest : Within [("soundLevel", IsQuantity (none :: explicitSigns) "dB")] _ := .refl _
  exact .cons (fun _ => id) (.cons (fun _ => id) (.cons (fun _ => id) (.cons (fun _ => id) (.cons duration
    (.cons duration (.cons duration rest))))))

theorem pitch_within (h : narrow.Within wide) (text : String) (admitted : pitch narrow text) : pitch wide text :=
  admitted.imp_right (Or.imp_right (And.imp_left h.of_google))

theorem interpretation_within (h : narrow.Within wide) (text : String) (admitted : interpretation narrow text) :
    interpretation wide text := by
  rcases h with rfl | rfl
  · exact .inl (admitted.resolve_right (by simp))
  · exact admitted

theorem format_within (h : narrow.Within wide) (isDate : Bool) (text : String) (admitted : format narrow isDate text) :
    format wide isDate text := by
  cases isDate with
  | true => exact admitted
  | false => exact admitted.imp_left h.of_google

theorem style_within {narrow wide : Locale} (h : narrow.Within wide) (text : String) (admitted : style narrow text) :
    style wide text := by
  rcases h with rfl | rfl
  · refine .inl ⟨rfl, ?_⟩
    rcases admitted with ⟨-, mem⟩ | ⟨-, rfl⟩
    · exact mem
    · exact List.mem_cons_self
  · exact admitted

end Domain

namespace Tag

variable {narrow wide : Target}

theorem domains_within (tag : Tag) (h : narrow.Within wide) (attributes : Attributes) :
    Domain.Within (tag.domains narrow attributes) (tag.domains wide attributes) := by
  cases tag with
  | amazonDomain => exact .cons (Domain.style_within h.locale) (.nil _)
  | audio => exact Domain.audio_within h.platform
  | pause => exact .cons (fun _ => id) (.cons (Domain.isDurationUpTo_within h.platform) (.nil _))
  | emphasis => exact .cons (fun _ => Or.imp_right (And.imp_left h.platform.of_google)) (.nil _)
  | media => exact Domain.media_within h.platform
  | prosody => exact .cons (fun _ => id) (.cons (Domain.pitch_within h.platform) (.refl _))
  | sayAs =>
    refine .cons (Domain.interpretation_within h.platform) (.cons (Domain.format_within h.platform _) ?_)
    by_cases google : narrow.platform = .google
    · rw [if_pos google, if_pos (h.platform.of_google google)]
      exact .refl _
    · rw [if_neg google]
      exact .nil _
  | _ => exact .refl _

theorem knownIn_within {tag : Tag} {narrow wide : Locale} (h : narrow.Within wide) (known : tag.KnownIn narrow) :
    tag.KnownIn wide := by
  rcases h with rfl | rfl
  · exact ⟨fun _ => rfl, fun _ => .inl rfl⟩
  · exact known

variable {tag : Tag} {parent : String} {e : Element}

theorem conforms_within (h : narrow.Within wide) (conforms : tag.Conforms narrow parent e) :
    tag.Conforms wide parent e := by
  have admitted (entry : String × String) (mem : entry ∈ e.attributes.entries) {names : List String}
      (listed : tag.allowed wide.platform = some names) :
      ∃ domain, (tag.domains wide e.attributes).lookup entry.1 = some domain ∧ domain entry.2 := by
    -- Whether a tag keeps all attributes does not hang on the platform.
    cases narrowly : tag.allowed narrow.platform with
    | none =>
      rw [allowed_eq_none_iff.2 (allowed_eq_none_iff.1 narrowly)] at listed
      cases listed
    | some kept =>
      obtain ⟨domain, found⟩ :=
        (mem_allowed_iff narrowly e.attributes entry.1).1 (conforms.kept kept narrowly entry mem)
      exact tag.domains_within h e.attributes _ _ ⟨domain, found, conforms.valued entry mem domain found⟩
  refine ⟨fun names listed entry mem => ?_, fun entry mem domain found => ?_, conforms.complete,
    knownIn_within h.locale conforms.known, conforms.placed, conforms.timed⟩
  · obtain ⟨domain, found, -⟩ := admitted entry mem listed
    exact (mem_allowed_iff listed e.attributes entry.1).2 ⟨domain, found⟩
  · cases listed : tag.allowed wide.platform with
    | none =>
      rw [domains_of_allowed_none listed] at found
      cases found
    | some names =>
      obtain ⟨other, same, inside⟩ := admitted entry mem listed
      cases found.symm.trans same
      exact inside

end Tag

theorem Occurrence.conforms_within {narrow wide : Target} (h : narrow.Within wide) {o : Occurrence}
    (conforms : o.Conforms narrow) : o.Conforms wide :=
  fun tag known => Tag.conforms_within h (conforms tag known)

theorem check_within {narrow wide : Config} (h : narrow.toTarget.Within wide.toTarget) {document : Element}
    (silent : (narrow.check document).report.violations = []) :
    (wide.check document).report.violations = [] ∧
      (wide.check document).document = (narrow.check document).document := by
  rw [violations_check] at silent
  have conforms := (violations_tidy_eq_nil_iff document.name 0 document.childList).1 silent
  have wider : ∀ o ∈ occurrences document.name 0 document.childList, o.Conforms wide.toTarget :=
    fun o mem => Occurrence.conforms_within h (conforms o mem)
  refine ⟨?_, ?_⟩
  · rw [violations_check]
    exact (violations_tidy_eq_nil_iff document.name 0 document.childList).2 wider
  · rw [document_check, document_check, tidy_of_conforms document.name 0 wider,
      tidy_of_conforms document.name 0 conforms]

/-- A document with which nothing is wrong on the generic platform passes on every platform, and one with which nothing
is wrong in some locale passes in en-US; either way it is left as it was left before. -/
theorem check_of_baseline (config : Config) (document : Element) :
    let baseline := { config with platform := .generic }
    let widest := { config with locale := .enUS }
    ((baseline.check document).report.violations = [] → ∀ platform,
      ({ config with platform }.check document).report.violations = [] ∧
        ({ config with platform }.check document).document = (baseline.check document).document) ∧
    ((config.check document).report.violations = [] →
      (widest.check document).report.violations = [] ∧
        (widest.check document).document = (config.check document).document) := by
  intro baseline widest
  refine ⟨fun silent platform => ?_, fun silent => ?_⟩
  · have within : baseline.toTarget.Within ⟨platform, config.locale⟩ := ⟨.inl rfl, .inr rfl⟩
    exact check_within within silent
  · have within : config.toTarget.Within widest.toTarget := ⟨.inr rfl, .inl rfl⟩
    exact check_within within silent

/-- The style of a newsreader is known in two locales, and the pause in it is filled in on every target. -/
theorem check_of_baseline_news :
    let news : Element := {
      name := "amazon:domain"
      attributes := Dictionary.empty.insert "name" "news"
      children := some [{ name := "break" }] }
    let document := Element.document [news]
    let config : Config := { locale := .enAU }
    (config.check document).report.violations = [] ∧
      ({ config with platform := .google }.check document).report.violations = [] ∧
      ({ config with platform := .google }.check document).document = (config.check document).document ∧
      ({ config with locale := .enUS }.check document).report.violations = [] ∧
      ({ config with locale := .enUS }.check document).document = (config.check document).document := by
  intro news document config
  have style : Tag.ofName? "amazon:domain" = some .amazonDomain := by decide
  have pause : Tag.ofName? "break" = some .pause := by decide
  have conforms : Occurrence.Conforms config.toTarget ⟨"", 0, news⟩ ∧
      Occurrence.Conforms config.toTarget ⟨"amazon:domain", 0, { name := "break" }⟩ :=
    ⟨(Occurrence.conforms_iff style).2 rfl, (Occurrence.conforms_iff pause).2 rfl⟩
  have silent : (config.check document).report.violations = [] := by
    rw [violations_check, violations_tidy_eq_nil_iff]
    simpa [document, news, Element.document, Element.childList, occurrences] using conforms
  obtain ⟨onPlatforms, inLocales⟩ := check_of_baseline config document
  obtain ⟨passesThere, sameThere⟩ := onPlatforms silent .google
  obtain ⟨passesHere, sameHere⟩ := inLocales silent
  exact ⟨silent, passesThere, sameThere, passesHere, sameHere⟩

end SpeechMarkup
