import SpeechMarkup.Check.Document
import SpeechMarkup.Proofs.Losses

/-! The log of a check beside its report. For every visit the log has a line for each record that the visit made, and
behind them one more line where the visited element went. A line for the whole document closes the story of the visits,
and only the lines behind that one, and the verdict, depend on the failure mode. -/

namespace SpeechMarkup

open Element

def Element.ruleLine (e : Element) (message : String) : LogLine :=
  ⟨.debug, .rules, "<" ++ e.name ++ ">" ++ message⟩

/-- A record of the rule for an element that comes out of it like this, and the line that tells of it. What they name
was there in the element, and what they say was done to it was done. -/
inductive Told (target : Target) (e after : Element) : Violation → LogLine → Prop where
  | stripped {attr value : String} (has : e.attributes.get? attr = some value) :
      Told target e after ⟨e.name, some attr, none⟩ (e.ruleLine (" drops unsupported attribute " ++ attr))
  | replaced {attr old new : String} (has : e.attributes.get? attr = some old)
      (gets : after.attributes.get? attr = some new) :
      Told target e after ⟨e.name, some attr, some old⟩ (e.ruleLine (" " ++ attr ++ " -> " ++ Text.quoted new))
  | discarded {attr old : String} (has : e.attributes.get? attr = some old) :
      Told target e after ⟨e.name, some attr, some old⟩
        (e.ruleLine (" drops invalid " ++ attr ++ "=" ++ Text.quoted old))
  | lacking {tag : Tag} (known : Tag.ofName? e.name = some tag) (supported : tag.KnownIn target.locale) :
      Told target e after ⟨e.name, some "none", none⟩ (e.ruleLine " lacks required attributes")
  | unsupported {tag : Tag} (known : Tag.ofName? e.name = some tag) (unsupported : ¬tag.KnownIn target.locale) :
      Told target e after ⟨e.name, some "none", none⟩ (e.ruleLine (" is not supported in " ++ target.locale.tag))
  | misplaced (desc : e.name = "desc") :
      Told target e after ⟨e.name, none, none⟩ (e.ruleLine " outside <audio> removed")
  | dropped {child : Element} (container : e.name ∈ ["par", "seq"]) (inside : child ∈ e.childList)
      (untimed : child.name ∉ ["par", "seq", "media"]) :
      Told target e after ⟨e.name, none, some (if Tag.childLabel child = "" then "#text" else Tag.childLabel child)⟩
        (e.ruleLine (" drops child <" ++ Tag.childLabel child ++ ">"))

inductive Leaves : Visit → LogLine → Prop where
  | removed {index : Nat} {e : Element} {tag : Tag} {outcome : Outcome} (action : outcome.action = .remove) :
      Leaves ⟨index, e, some ⟨tag, outcome⟩⟩ ⟨.debug, .checker, "Remove" ++ " <" ++ tag.name ++ s!"> at index {index}"⟩
  | unwrapped {index : Nat} {e : Element} {tag : Tag} {outcome : Outcome} (action : outcome.action = .unwrap) :
      Leaves ⟨index, e, some ⟨tag, outcome⟩⟩
        ⟨.debug, .checker, "ReplaceWithChildren" ++ " <" ++ tag.name ++ s!"> at index {index}"⟩

/-- The lines of some visits: the records of each one told in their order, and then the leaving of the element, where
it leaves. -/
inductive Chronicle (target : Target) : List Visit → List LogLine → Prop where
  | nil : Chronicle target [] []
  | stays {visit : Visit} {visits : List Visit} {told lines : List LogLine}
      (here : List.Forall₂ (Told target visit.found visit.result) visit.violations told) (stays : visit.stays = true)
      (later : Chronicle target visits lines) : Chronicle target (visit :: visits) (told ++ lines)
  | goes {visit : Visit} {visits : List Visit} {told lines : List LogLine} {line : LogLine}
      (here : List.Forall₂ (Told target visit.found visit.result) visit.violations told) (leaves : Leaves visit line)
      (later : Chronicle target visits lines) : Chronicle target (visit :: visits) (told ++ line :: lines)

namespace LogLine

def isRepair (line : LogLine) : Bool :=
  line.level = .debug && line.source = .rules

def isLeaving (line : LogLine) : Bool :=
  line.level = .debug && line.source = .checker

end LogLine

section Lines

variable {target : Target} {e after : Element} {visit : Visit} {line : LogLine} {violations : List Violation}
  {told : List LogLine}

theorem LogLine.level_of_isRepair (h : line.isRepair = true) : line.level = .debug := by
  simp only [isRepair, Bool.and_eq_true, decide_eq_true_eq] at h
  exact h.1

theorem LogLine.level_of_isLeaving (h : line.isLeaving = true) : line.level = .debug := by
  simp only [isLeaving, Bool.and_eq_true, decide_eq_true_eq] at h
  exact h.1

theorem LogLine.not_isLeaving_of_isRepair (h : line.isRepair = true) : line.isLeaving = false := by
  simp only [isRepair, Bool.and_eq_true, decide_eq_true_eq] at h
  simp [isLeaving, h.2]

theorem isRepair_of_told (h : List.Forall₂ (Told target e after) violations told) :
    ∀ line ∈ told, line.isRepair = true := by
  induction h with
  | nil => exact List.forall_mem_nil _
  | cons here _ ih =>
    refine List.forall_mem_cons.2 ⟨?_, ih⟩
    cases here <;> rfl

theorem filter_isRepair_of_told (h : List.Forall₂ (Told target e after) violations told) :
    told.filter LogLine.isRepair = told :=
  List.filter_eq_self.2 (isRepair_of_told h)

theorem filter_isLeaving_of_told (h : List.Forall₂ (Told target e after) violations told) :
    told.filter LogLine.isLeaving = [] := by
  rw [List.filter_eq_nil_iff]
  intro line mem
  rw [LogLine.not_isLeaving_of_isRepair (isRepair_of_told h line mem)]
  exact Bool.false_ne_true

namespace Leaves

theorem level (h : Leaves visit line) : line.level = .debug := by
  cases h <;> rfl

theorem isLeaving (h : Leaves visit line) : line.isLeaving = true := by
  cases h <;> rfl

theorem not_isRepair (h : Leaves visit line) : line.isRepair = false := by
  cases h <;> rfl

theorem not_stays (h : Leaves visit line) : visit.stays = false := by
  cases h with
  | removed action => simp [Visit.stays, action, Action.removesElement]
  | unwrapped action => simp [Visit.stays, action, Action.removesElement]

end Leaves

end Lines

namespace Chronicle

variable {target : Target} {visits : List Visit} {lines : List LogLine}

theorem level (h : Chronicle target visits lines) : ∀ line ∈ lines, line.level = .debug := by
  induction h with
  | nil => exact List.forall_mem_nil _
  | stays here _ _ ih =>
    have repairs := isRepair_of_told here
    exact List.forall_mem_append.2 ⟨fun line mem => LogLine.level_of_isRepair (repairs line mem), ih⟩
  | goes here leaves _ ih =>
    have repairs := isRepair_of_told here
    exact List.forall_mem_append.2 ⟨fun line mem => LogLine.level_of_isRepair (repairs line mem),
      List.forall_mem_cons.2 ⟨leaves.level, ih⟩⟩

theorem repairs (h : Chronicle target visits lines) :
    List.Forall₂ (fun violation line => ∃ visit ∈ visits, Told target visit.found visit.result violation line)
      (visits.flatMap Visit.violations) (lines.filter LogLine.isRepair) := by
  induction h with
  | nil => exact .nil
  | stays here _ _ ih =>
    rw [List.flatMap_cons, List.filter_append, filter_isRepair_of_told here]
    exact List.rel_append (here.imp fun _ _ told => ⟨_, List.mem_cons_self, told⟩)
      (ih.imp fun _ _ ⟨visit, mem, told⟩ => ⟨visit, List.mem_cons_of_mem _ mem, told⟩)
  | goes here leaves _ ih =>
    rw [List.flatMap_cons, List.filter_append, filter_isRepair_of_told here,
      List.filter_cons_of_neg (by rw [leaves.not_isRepair]; exact Bool.false_ne_true)]
    exact List.rel_append (here.imp fun _ _ told => ⟨_, List.mem_cons_self, told⟩)
      (ih.imp fun _ _ ⟨visit, mem, told⟩ => ⟨visit, List.mem_cons_of_mem _ mem, told⟩)

theorem leavings (h : Chronicle target visits lines) : List.Forall₂ Leaves (visits.filter fun visit => !visit.stays)
    (lines.filter LogLine.isLeaving) := by
  induction h with
  | nil => exact .nil
  | stays here stays _ ih =>
    rw [List.filter_append, filter_isLeaving_of_told here, List.filter_cons_of_neg (by simp [stays])]
    exact ih
  | goes here leaves _ ih =>
    rw [List.filter_append, filter_isLeaving_of_told here, List.filter_cons_of_pos (by simp [leaves.not_stays]),
      List.filter_cons_of_pos leaves.isLeaving]
    exact .cons leaves ih

end Chronicle

/-- The record of a repair and the line of a repair tell the same of an element, and tell it truly. -/
def Repair.Tells (target : Target) (e after : Element) (repair : Repair) : Prop :=
  Told target e after (repair.violation e.name) (repair.line e.name)

namespace Tag

variable {tag : Tag} {place : Place} {e : Element} {repair : Repair} {attributes : Attributes} {repairs : List Repair}

theorem tells_repairAttributes (mem : repair ∈ (tag.repairAttributes place e.attributes).2) :
    repair.Tells place.target e (tag.settle e (tag.repairAttributes place e.attributes).1 repairs).element := by
  simp only [repairAttributes, List.mem_filterMap] at mem
  obtain ⟨⟨attr, value⟩, entry, told⟩ := mem
  have has : e.attributes.get? attr = some value := Dictionary.get?_eq_some_iff.2 (mem_inOrder.1 entry)
  cases verdict : judge (tag.grammar place e.attributes) place.target.platform attr value with
  | accepted => simp [verdict, Verdict.repair] at told
  | unknown =>
    simp only [verdict, Verdict.repair, Option.some.injEq] at told
    subst told
    exact .stripped has
  | replace new =>
    simp only [verdict, Verdict.repair, Option.some.injEq] at told
    subst told
    refine .replaced has ?_
    rw [get?_settle, get?_repairAttributes, has, Option.bind_some, verdict]
    rfl
  | discard =>
    simp only [verdict, Verdict.repair, Option.some.injEq] at told
    subst told
    exact .discarded has

theorem tells_planAttributes (known : ofName? e.name = some tag)
    (mem : repair ∈ (tag.planAttributes place e).repairs) :
    repair.Tells place.target e (tag.planAttributes place e).element := by
  by_cases supported : tag.supportedIn place.target.locale = true
  · rw [planAttributes, if_pos supported] at mem ⊢
    rcases mem_settle_repairs mem with mem | rfl
    · exact tells_repairAttributes mem
    · exact .lacking known (knownIn_iff.2 supported)
  · rw [planAttributes, if_neg supported] at mem
    cases List.mem_singleton.1 mem
    exact .unsupported known fun knownIn => supported (knownIn_iff.1 knownIn)

theorem tells_planContainer {target : Target} {after : Element} (container : e.name ∈ ["par", "seq"])
    (mem : repair ∈ (planContainer e).repairs) : repair.Tells target e after := by
  simp only [planContainer, List.mem_map, List.mem_filter] at mem
  obtain ⟨child, ⟨inside, untimed⟩, rfl⟩ := mem
  exact .dropped container inside fun timed => by simp [isTimed_iff.2 timed] at untimed

theorem tells_plan (known : ofName? e.name = some tag) (mem : repair ∈ (tag.plan place e).repairs) :
    repair.Tells place.target e (tag.plan place e).element := by
  cases tag with
  | desc =>
    have name : e.name = "desc" := eq_name_of_ofName? known rfl
    simp only [plan, planDesc] at mem
    split at mem
    · cases mem
    · cases List.mem_singleton.1 mem
      exact .misplaced name
  | par => exact tells_planContainer ((name_mem_containers_iff known).2 (.inl rfl)) mem
  | seq => exact tells_planContainer ((name_mem_containers_iff known).2 (.inr rfl)) mem
  | speak => cases mem
  | _ => exact tells_planAttributes known mem

/-- A rule writes its lines and makes its records at different places, and under conditions of their own; still each
record has its line, and the other way round, since the rule comes to what is planned. -/
theorem told_check (known : ofName? e.name = some tag) (place : Place) :
    List.Forall₂ (Told place.target e (tag.check place e).element) (tag.check place e).violations
      (tag.check place e).log := by
  have named : (tag.check place e).element.name = e.name := check_name
  rw [check_eq_plan] at named ⊢
  rw [Plan.element_outcome] at named ⊢
  rw [Plan.violations_outcome, Plan.log_outcome, named, List.forall₂_map_left_iff, List.forall₂_map_right_iff,
    List.forall₂_same]
  exact fun repair mem => tells_plan known mem

end Tag

def Visit.Ruled (target : Target) (visit : Visit) : Prop :=
  ∀ ruling, visit.ruling = some ruling → Tag.ofName? visit.found.name = some ruling.tag ∧
    ∃ place : Place, place.target = target ∧ ruling.outcome = ruling.tag.check place visit.found

theorem Tag.ruled {tag : Tag} {e : Element} (known : ofName? e.name = some tag) (target : Target) (parent : String)
    (index : Nat) : Visit.Ruled target ⟨index, e, some ⟨tag, tag.check (.under target parent index) e⟩⟩ := by
  intro ruling same
  cases same
  exact ⟨known, .under target parent index, rfl, rfl⟩

theorem ruled_tidy (target : Target) (parent : String) (index : Nat) (nodes : List Element) :
    ∀ visit ∈ (tidy target parent index nodes).visits, visit.Ruled target := by
  fun_induction tidy target parent index nodes with
  | case1 parent index => exact List.forall_mem_nil _
  | case2 parent index e rest unknown inner later ihInner ihLater =>
    have unruled : Visit.Ruled target ⟨index, e, none⟩ := fun _ same => absurd same (Option.some_ne_none _).symm
    exact List.forall_mem_cons.2 ⟨unruled, List.forall_mem_append.2 ⟨ihInner, ihLater⟩⟩
  | case3 parent index e rest tag known outcome visit action later ih =>
    exact List.forall_mem_cons.2 ⟨Tag.ruled known target parent index, ih⟩
  | case4 parent index e rest tag known outcome visit action later ih =>
    exact List.forall_mem_cons.2 ⟨Tag.ruled known target parent index, ih⟩
  | case5 parent index e rest tag known outcome visit action inner later ihInner ihLater =>
    exact List.forall_mem_cons.2 ⟨Tag.ruled known target parent index, List.forall_mem_append.2 ⟨ihInner, ihLater⟩⟩

theorem ruled_walk (target : Target) (document : Element) : ∀ visit ∈ (walk target document).2, visit.Ruled target := by
  rw [walk_eq_tidy]
  exact ruled_tidy target document.name 0 document.childList

theorem Visit.Ruled.told {target : Target} {visit : Visit} (h : visit.Ruled target) :
    ∃ told, List.Forall₂ (Told target visit.found visit.result) visit.violations told ∧
      (visit.stays = true ∧ visit.log = told ∨ ∃ line, Leaves visit line ∧ visit.log = told ++ [line]) := by
  obtain ⟨index, e, ruling⟩ := visit
  cases ruling with
  | none => exact ⟨[], .nil, .inl ⟨rfl, rfl⟩⟩
  | some ruling =>
    obtain ⟨tag, outcome⟩ := ruling
    obtain ⟨known, place, same, checked⟩ := h _ rfl
    have told := Tag.told_check known place
    rw [same, ← checked] at told
    refine ⟨outcome.log, told, ?_⟩
    cases action : outcome.action with
    | keep => simp [Visit.stays, Visit.log, action, Action.removesElement]
    | remove =>
      exact .inr ⟨_, .removed action, by simp [Visit.log, action, Action.removesElement, leavingLine, Action.word]⟩
    | unwrap =>
      exact .inr ⟨_, .unwrapped action, by simp [Visit.log, action, Action.removesElement, leavingLine, Action.word]⟩

theorem chronicle_log {target : Target} {visits : List Visit} (ruled : ∀ visit ∈ visits, visit.Ruled target) :
    Chronicle target visits (visits.flatMap Visit.log) := by
  induction visits with
  | nil => exact .nil
  | cons visit visits ih =>
    obtain ⟨first, others⟩ := List.forall_mem_cons.1 ruled
    have later := ih others
    obtain ⟨told, here, ⟨stays, log⟩ | ⟨line, leaves, log⟩⟩ := first.told
    · rw [List.flatMap_cons, log]
      exact .stays here stays later
    · rw [List.flatMap_cons, log, List.append_assoc, List.singleton_append]
      exact .goes here leaves later

/-- The lines behind those of the visits: one that counts the records, and in a warning check one for each record. -/
def closing (target : Target) (mode : FailureMode) (violations : List Violation) : List LogLine :=
  ⟨.info, .checker, "checked document for " ++ target.platform.name ++ "/" ++ target.locale.tag
      ++ s!": {violations.length} violation(s)"⟩ ::
    if mode = .warn then violations.map fun violation => ⟨.warn, .checker, violation.display⟩ else []

section Closing

variable {target : Target} {mode : FailureMode} {violations : List Violation}

theorem closing_eq :
    closing target mode violations = summaryLine target violations :: mode.warnings violations := by
  cases mode <;> rfl

theorem level_closing : ∀ line ∈ closing target mode violations, line.level ≠ .debug := by
  refine List.forall_mem_cons.2 ⟨LogLevel.noConfusion, ?_⟩
  split
  · exact List.forall_mem_map.2 fun _ _ => LogLevel.noConfusion
  · exact List.forall_mem_nil _

theorem filter_isRepair_closing : (closing target mode violations).filter LogLine.isRepair = [] :=
  List.filter_eq_nil_iff.2 fun line mem repair => level_closing line mem (LogLine.level_of_isRepair repair)

theorem filter_isLeaving_closing : (closing target mode violations).filter LogLine.isLeaving = [] :=
  List.filter_eq_nil_iff.2 fun line mem leaving => level_closing line mem (LogLine.level_of_isLeaving leaving)

end Closing

/-- What the visits of a walk have to do with the document and with what is left of it. They come to its nodes in the
order of the text, to none of them twice. The nodes that are left are those that stayed, each judged where it stands,
and the nodes that the rule of their own tag took away are those that did not stay. -/
structure Visited (target : Target) (document left : Element) (visits : List Visit) : Prop where
  found : (visits.map Visit.found).Sublist (document.descendants.map Occurrence.node)
  stayed : List.Forall₂ (Judged target) left.descendants (visits.filter Visit.stays)
  went : ∃ losses, Sifted target document.name document.childList left.childList losses ∧
    List.Forall₂ (Loss.TakenBy target) (losses.filter Loss.byRule) (visits.filter fun visit => !visit.stays)

theorem visited_walk (target : Target) (document : Element) :
    Visited target document (walk target document).1 (walk target document).2 := by
  refine ⟨sublist_found_walk target document, judged_walk target document, ?_⟩
  obtain ⟨losses, sifted, taken, -⟩ := sifted_tidy target document.name 0 document.childList
  rw [walk_eq_tidy, childList_withNodes_tidy]
  exact ⟨losses, sifted, taken⟩

/-- What comes of a check in some failure mode, when the walk over the document came to this and its visits to these
lines. -/
structure Recounted (target : Target) (mode : FailureMode) (walked : Element × List Visit) (lines : List LogLine)
    (checked : Checked) : Prop where
  document : checked.document = walked.1
  violations : checked.report.violations = walked.2.flatMap Visit.violations
  refused : checked.report.valid = false ↔ mode = .block ∧ checked.report.violations ≠ []
  log : checked.log = lines ++ closing target mode checked.report.violations
  repairs : List.Forall₂ (fun violation line => ∃ visit ∈ walked.2, Told target visit.found visit.result violation line)
    checked.report.violations (checked.log.filter LogLine.isRepair)
  leavings : List.Forall₂ Leaves (walked.2.filter fun visit => !visit.stays) (checked.log.filter LogLine.isLeaving)

theorem log_check (config : Config) (document : Element) : (config.check document).log =
    (walk config.toTarget document).2.flatMap Visit.log ++
      closing config.toTarget config.failureMode (config.check document).report.violations := by
  rw [closing_eq]
  rfl

/-- The log of a check tells the records one by one, and behind those of an element that goes that it went; the count of
the records follows. Of all this only the verdict and the warnings behind the count depend on the failure mode. -/
theorem exists_recounted_check (target : Target) (document : Element) :
    Visited target document (walk target document).1 (walk target document).2 ∧
    ∃ lines, Chronicle target (walk target document).2 lines ∧ (∀ line ∈ lines, line.level = .debug) ∧
      ∀ mode, Recounted target mode (walk target document) lines (Config.check ⟨target, mode⟩ document) := by
  have chronicle := chronicle_log (ruled_walk target document)
  refine ⟨visited_walk target document, _, chronicle, chronicle.level, fun mode => ?_⟩
  have log := log_check ⟨target, mode⟩ document
  refine ⟨rfl, rfl, ?_, log, ?_, ?_⟩
  · rw [← Bool.not_eq_true, valid_check_iff, not_or, not_not]
  · rw [log, List.filter_append, filter_isRepair_closing, List.append_nil]
    exact chronicle.repairs
  · rw [log, List.filter_append, filter_isLeaving_closing, List.append_nil]
    exact chronicle.leavings

/-- A pause that is too long, and a description in a domain that the voices do not know: the domain makes way for the
description, which is removed from the place that it comes to. -/
theorem exists_recounted_check_domain :
    let pause : Element := {
      kind := some .element, name := "break", attributes := Dictionary.empty.insert "time" "20s" }
    let desc : Element := { kind := some .element, name := "desc" }
    let domain : Element := { kind := some .element, name := "amazon-domain", children := some [desc] }
    let document := Element.document [pause, domain]
    let target : Target := { locale := .enGB }
    let checked := Config.check ⟨target, .warn⟩ document
    checked.log = [
      ⟨.debug, .rules, "<break> time -> \"10s\""⟩,
      ⟨.debug, .rules, "<amazon-domain> is not supported in en-GB"⟩,
      ⟨.debug, .checker, "ReplaceWithChildren <amazon:domain> at index 1"⟩,
      ⟨.debug, .rules, "<desc> outside <audio> removed"⟩,
      ⟨.debug, .checker, "Remove <desc> at index 1"⟩,
      ⟨.info, .checker, "checked document for generic/en-GB: 3 violation(s)"⟩,
      ⟨.warn, .checker, "<break>: invalid value \"20s\" for time"⟩,
      ⟨.warn, .checker, "<amazon-domain>: required attribute missing or tag unsupported"⟩,
      ⟨.warn, .checker, "<desc>: not allowed here"⟩] ∧
    Visited target document (walk target document).1 (walk target document).2 ∧
    ∃ lines, Chronicle target (walk target document).2 lines ∧
      Recounted target .warn (walk target document) lines checked := by
  intro pause desc domain document target checked
  have pauseName : Tag.ofName? "break" = some .pause := by decide
  have domainName : Tag.ofName? "amazon-domain" = some .amazonDomain := by decide
  have descName : Tag.ofName? "desc" = some .desc := by decide
  let visits : List Visit := [⟨0, pause, some ⟨.pause, Tag.pause.check (.under target "" 0) pause⟩⟩,
    ⟨1, domain, some ⟨.amazonDomain, Tag.amazonDomain.check (.under target "" 1) domain⟩⟩,
    ⟨1, desc, some ⟨.desc, Tag.desc.check (.under target "" 1) desc⟩⟩]
  have walked : (walk target document).2 = visits := by
    have top : tidy target document.name 0 document.childList = tidy target "" 0 [pause, domain] := rfl
    have inside : domain.childList ++ [] = [desc] := rfl
    have nothing : tidy target "break" 0 [] = ⟨[], []⟩ := by rw [tidy]
    have last : tidy target "" 1 [] = ⟨[], []⟩ := by rw [tidy]
    have childless : (Tag.pause.check (.under target "" 0) pause).element.childList = [] := rfl
    have named : pause.name = "break" := rfl
    rw [walk_eq_tidy, top, tidy_of_keep pauseName rfl, tidy_of_unwrap domainName rfl, inside,
      tidy_of_remove descName rfl, last]
    simp only [childless, named, nothing]
    rfl
  obtain ⟨visited, lines, chronicle, -, recounted⟩ := exists_recounted_check target document
  refine ⟨?_, visited, lines, chronicle, recounted .warn⟩
  have log : checked.log = visits.flatMap Visit.log ++ closing target .warn (visits.flatMap Visit.violations) := by
    rw [← walked]
    exact log_check ⟨target, .warn⟩ document
  rw [log]
  decide +kernel

end SpeechMarkup
