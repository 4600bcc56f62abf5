import SpeechMarkup.Check.Document
import SpeechMarkup.Proofs.Occurrence

/-! What a check makes of a whole document. It reports nothing exactly where every node conforms already; it leaves
a document in which every node conforms fully; and such a document it does not change any more. All of this is read
off the recursion on the lists of children. -/

namespace SpeechMarkup

open Element

namespace Occurrence

/-- A node whose tag has rules conforms where it stands. -/
def Conforms (target : Target) (o : Occurrence) : Prop :=
  ∀ tag, Tag.ofName? o.node.name = some tag → tag.Conforms target o.parent o.node

def ConformsFully (target : Target) (o : Occurrence) : Prop :=
  ∀ tag, Tag.ofName? o.node.name = some tag → tag.ConformsFully target o.parent o.node

theorem ConformsFully.conforms {target : Target} {o : Occurrence} (h : o.ConformsFully target) : o.Conforms target :=
  fun tag known => (h tag known).toConforms

end Occurrence

theorem Tidied.violations_cons (nodes : List Element) (visit : Visit) (later : Tidied) :
    (Tidied.mk nodes (visit :: later.visits)).violations = visit.violations ++ later.violations :=
  List.flatMap_cons

theorem Tidied.violations_cons_append (nodes : List Element) (visit : Visit) (inner later : Tidied) :
    (Tidied.mk nodes (visit :: (inner.visits ++ later.visits))).violations =
      visit.violations ++ (inner.violations ++ later.violations) := by
  rw [violations, List.flatMap_cons, List.flatMap_append]
  rfl

theorem Tidied.violations_eq_nil_iff {nodes : List Element} {visit : Visit} {visits : List Visit} :
    (Tidied.mk nodes (visit :: visits)).violations = [] ↔
      visit.violations = [] ∧ visits.flatMap Visit.violations = [] := by
  rw [violations, List.flatMap_cons, List.append_eq_nil_iff]

theorem Tidied.violations_append_eq_nil_iff {nodes : List Element} {visit : Visit} {inner later : List Visit} :
    (Tidied.mk nodes (visit :: (inner ++ later))).violations = [] ↔
      visit.violations = [] ∧ inner.flatMap Visit.violations = [] ∧ later.flatMap Visit.violations = [] := by
  rw [violations_eq_nil_iff, List.flatMap_append, List.append_eq_nil_iff]

variable {target : Target}

theorem Tag.of_timed {tag : Tag} {name : String} (timed : name ∈ ["par", "seq", "media"])
    (known : ofName? name = some tag) : tag = par ∨ tag = seq ∨ tag = media := by
  simp only [List.mem_cons, List.not_mem_nil, or_false] at timed
  rcases timed with rfl | rfl | rfl
  · exact .inl (Option.some.inj (known.symm.trans (ofName?_name par)))
  · exact .inr (.inl (Option.some.inj (known.symm.trans (ofName?_name seq))))
  · exact .inr (.inr (Option.some.inj (known.symm.trans (ofName?_name media))))

theorem Tag.name_mem_containers_iff {tag : Tag} {name : String} (known : ofName? name = some tag) :
    name ∈ ["par", "seq"] ↔ tag = par ∨ tag = seq := by
  constructor
  · intro container
    simp only [List.mem_cons, List.not_mem_nil, or_false] at container
    rcases container with rfl | rfl
    · exact .inl (Option.some.inj (known.symm.trans (ofName?_name par)))
    · exact .inr (Option.some.inj (known.symm.trans (ofName?_name seq)))
  · rintro (rfl | rfl) <;> simp [eq_name_of_ofName? known rfl, Tag.name]

theorem timed_tidy (parent : String) (index : Nat) {nodes : List Element}
    (timed : ∀ child ∈ nodes, child.name ∈ ["par", "seq", "media"]) :
    ∀ child ∈ (tidy target parent index nodes).nodes, child.name ∈ ["par", "seq", "media"] := by
  fun_induction tidy target parent index nodes with
  | case1 parent index => exact timed
  | case2 parent index e rest unknown inner later ihInner ihLater =>
    obtain ⟨here, behind⟩ := List.forall_mem_cons.1 timed
    exact List.forall_mem_cons.2 ⟨here, ihLater behind⟩
  | case3 parent index e rest tag known outcome visit action later ih =>
    exact ih (List.forall_mem_cons.1 timed).2
  | case4 parent index e rest tag known outcome visit action later ih =>
    have keep : outcome.action = .keep :=
      Tag.check_action_of_timed (Tag.of_timed (List.forall_mem_cons.1 timed).1 known)
    rw [action] at keep
    cases keep
  | case5 parent index e rest tag known outcome visit action inner later ihInner ihLater =>
    obtain ⟨here, behind⟩ := List.forall_mem_cons.1 timed
    have name : (outcome.element.withNodes inner.nodes).name = e.name := Tag.check_name
    exact List.forall_mem_cons.2 ⟨name ▸ here, ihLater behind⟩

theorem Tag.ConformsFully.withNodes {tag : Tag} {parent : String} {e : Element} {nodes : List Element}
    (h : tag.ConformsFully target parent e)
    (timed : tag = .par ∨ tag = .seq → ∀ child ∈ nodes, child.name ∈ ["par", "seq", "media"]) :
    tag.ConformsFully target parent (e.withNodes nodes) := by
  refine ⟨⟨h.kept, h.valued, h.complete, h.known, h.placed, fun container child mem => ?_⟩, h.pauseLength⟩
  cases hc : e.children with
  | none => simp [Element.withNodes, childList, hc] at mem
  | some children =>
    simp only [Element.withNodes, childList, hc, Option.map_some, Option.getD_some] at mem
    exact timed container child mem

theorem conformsFully_tidy (parent : String) (index : Nat) (nodes : List Element) :
    ∀ o ∈ occurrences parent index (tidy target parent index nodes).nodes, o.ConformsFully target := by
  fun_induction tidy target parent index nodes with
  | case1 parent index => simp [occurrences]
  | case2 parent index e rest unknown inner later ihInner ihLater =>
    rw [occurrences_tidied rfl, List.forall_mem_cons, List.forall_mem_append]
    refine ⟨fun tag known => ?_, ihInner, ihLater⟩
    have same : (e.withNodes inner.nodes).name = e.name := rfl
    rw [same, unknown] at known
    cases known
  | case3 parent index e rest tag known outcome visit action later ih => exact ih
  | case4 parent index e rest tag known outcome visit action later ih => exact ih
  | case5 parent index e rest tag known outcome visit action inner later ihInner ihLater =>
    have name : outcome.element.name = e.name := Tag.check_name
    have conforms := Tag.conformsFully_of_keep action
    rw [occurrences_tidied name, List.forall_mem_cons, List.forall_mem_append]
    refine ⟨fun other same => ?_, ihInner, ihLater⟩
    have found : Tag.ofName? e.name = some other := name ▸ same
    cases known.symm.trans found
    -- Inside a timed container only timed elements came through the rule, and none of them goes away later.
    exact conforms.withNodes fun container => timed_tidy e.name 0 (conforms.timed container)

theorem Occurrence.conforms_iff {parent : String} {index : Nat} {e : Element} {tag : Tag}
    (known : Tag.ofName? e.name = some tag) :
    Occurrence.Conforms target ⟨parent, index, e⟩ ↔ (tag.check (.under target parent index) e).violations = [] := by
  rw [Tag.check_eq_nil_iff]
  constructor
  · intro conforms
    exact conforms tag known
  · intro conforms other same
    cases known.symm.trans same
    exact conforms

theorem Tag.check_of_silent {parent : String} {index : Nat} {e : Element} {tag : Tag}
    (silent : (tag.check (.under target parent index) e).violations = []) :
    (tag.check (.under target parent index) e).action = .keep ∧
      (tag.check (.under target parent index) e).element.childList = e.childList := by
  obtain ⟨attributes, same⟩ := check_of_conforms ((check_eq_nil_iff index).1 silent) index
  rw [same]
  exact ⟨rfl, rfl⟩

theorem Occurrence.not_conforms {parent : String} {index : Nat} {e : Element} {tag : Tag}
    (known : Tag.ofName? e.name = some tag)
    (goes : (tag.check (.under target parent index) e).action ≠ .keep) :
    ¬Occurrence.Conforms target ⟨parent, index, e⟩ := by
  intro conforms
  exact goes (Tag.check_of_silent ((conforms_iff known).1 conforms)).1

theorem tidy_of_conformsFully (parent : String) (index : Nat) {nodes : List Element}
    (conforms : ∀ o ∈ occurrences parent index nodes, o.ConformsFully target) :
    (tidy target parent index nodes).nodes = nodes ∧ (tidy target parent index nodes).violations = [] := by
  fun_induction tidy target parent index nodes with
  | case1 parent index => exact ⟨rfl, rfl⟩
  | case2 parent index e rest unknown inner later ihInner ihLater =>
    obtain ⟨-, inside, behind⟩ := forall_occurrences_cons.1 conforms
    obtain ⟨sameInner, silentInner⟩ := ihInner inside
    obtain ⟨sameLater, silentLater⟩ := ihLater behind
    refine ⟨?_, Tidied.violations_append_eq_nil_iff.2 ⟨rfl, silentInner, silentLater⟩⟩
    rw [sameLater, sameInner, withNodes_childList]
  | case3 parent index e rest tag known outcome visit action later ih =>
    have goes : outcome.action ≠ .keep := by simp [action]
    exact absurd (forall_occurrences_cons.1 conforms).1.conforms (Occurrence.not_conforms known goes)
  | case4 parent index e rest tag known outcome visit action later ih =>
    have goes : outcome.action ≠ .keep := by simp [action]
    exact absurd (forall_occurrences_cons.1 conforms).1.conforms (Occurrence.not_conforms known goes)
  | case5 parent index e rest tag known outcome visit action inner later ihInner ihLater =>
    obtain ⟨here, inside, behind⟩ := forall_occurrences_cons.1 conforms
    have left : outcome = ⟨.start e, .keep⟩ := Tag.check_of_conformsFully (here tag known) index
    have element : outcome.element = e := by rw [left]; rfl
    have silent : outcome.violations = [] := by rw [left]; rfl
    obtain ⟨sameInner, silentInner⟩ := ihInner (element ▸ inside)
    obtain ⟨sameLater, silentLater⟩ := ihLater behind
    refine ⟨?_, Tidied.violations_append_eq_nil_iff.2 ⟨silent, silentInner, silentLater⟩⟩
    rw [sameLater, sameInner, withNodes_childList, element]

theorem violations_tidy_eq_nil_iff (parent : String) (index : Nat) (nodes : List Element) :
    (tidy target parent index nodes).violations = [] ↔ ∀ o ∈ occurrences parent index nodes, o.Conforms target := by
  fun_induction tidy target parent index nodes with
  | case1 parent index => simp [occurrences, Tidied.violations]
  | case2 parent index e rest unknown inner later ihInner ihLater =>
    have here : Occurrence.Conforms target ⟨parent, index, e⟩ := by
      intro tag known
      cases unknown.symm.trans known
    rw [Tidied.violations_append_eq_nil_iff, forall_occurrences_cons]
    constructor
    · intro silent
      exact ⟨here, ihInner.1 silent.2.1, ihLater.1 silent.2.2⟩
    · intro conforms
      exact ⟨rfl, ihInner.2 conforms.2.1, ihLater.2 conforms.2.2⟩
  | case3 parent index e rest tag known outcome visit action later ih =>
    have goes : outcome.action ≠ .keep := by simp [action]
    have refused := Occurrence.not_conforms known goes
    have loud : visit.violations ≠ [] := mt (Occurrence.conforms_iff known).2 refused
    rw [Tidied.violations_eq_nil_iff, forall_occurrences_cons]
    exact ⟨fun h => absurd h.1 loud, fun h => absurd h.1 refused⟩
  | case4 parent index e rest tag known outcome visit action later ih =>
    have goes : outcome.action ≠ .keep := by simp [action]
    have refused := Occurrence.not_conforms known goes
    have loud : visit.violations ≠ [] := mt (Occurrence.conforms_iff known).2 refused
    rw [Tidied.violations_eq_nil_iff, forall_occurrences_cons]
    exact ⟨fun h => absurd h.1 loud, fun h => absurd h.1 refused⟩
  | case5 parent index e rest tag known outcome visit action inner later ihInner ihLater =>
    have within (silent : outcome.violations = []) :
        inner.violations = [] ↔ ∀ o ∈ e.descendants, o.Conforms target := by
      have same : outcome.element.childList = e.childList := (Tag.check_of_silent silent).2
      rw [descendants, ← same]
      exact ihInner
    rw [Tidied.violations_append_eq_nil_iff, forall_occurrences_cons, Occurrence.conforms_iff known]
    constructor
    · intro silent
      exact ⟨silent.1, (within silent.1).1 silent.2.1, ihLater.1 silent.2.2⟩
    · intro conforms
      exact ⟨conforms.1, (within conforms.1).2 conforms.2.1, ihLater.2 conforms.2.2⟩

theorem document_check (config : Config) (document : Element) :
    (config.check document).document =
      document.withNodes (tidy config.toTarget document.name 0 document.childList).nodes := by
  rw [Config.check, walk_eq_tidy]

theorem violations_check (config : Config) (document : Element) :
    (config.check document).report.violations =
      (tidy config.toTarget document.name 0 document.childList).violations := by
  rw [Config.check, walk_eq_tidy]
  rfl

theorem valid_check_iff (config : Config) (document : Element) :
    (config.check document).report.valid = true ↔
      config.failureMode ≠ .block ∨ (config.check document).report.violations = [] := by
  simp [Config.check, Report.of]

theorem descendants_check (config : Config) (document : Element) :
    (config.check document).document.descendants =
      occurrences document.name 0 (tidy config.toTarget document.name 0 document.childList).nodes := by
  have named : (document.withNodes (tidy config.toTarget document.name 0 document.childList).nodes).name =
      document.name := rfl
  rw [document_check, descendants, named, childList_withNodes_tidy]

theorem check_of_conformsFully (config : Config) {document : Element}
    (h : ∀ o ∈ document.descendants, o.ConformsFully config.toTarget) :
    (config.check document).document = document ∧ (config.check document).report.violations = [] := by
  obtain ⟨same, silent⟩ := tidy_of_conformsFully document.name 0 h
  rw [document_check, violations_check, same, withNodes_childList]
  exact ⟨rfl, silent⟩

/-- In a repaired document every node with a known tag conforms to the grammar of the target. -/
theorem conformsFully_check (config : Config) (document : Element) :
    ∀ o ∈ (config.check document).document.descendants, ∀ tag, Tag.ofName? o.node.name = some tag →
      tag.ConformsFully config.toTarget o.parent o.node := by
  rw [descendants_check]
  exact conformsFully_tidy document.name 0 document.childList

/-- Both the language and the stress are filled in. -/
theorem conformsFully_check_nested :
    let stress : Element := { kind := some .element, name := "emphasis" }
    let repaired := (Config.check {} (.document [{ name := "lang", children := some [stress] }])).document
    ⟨"lang", 0, stress.setAttribute "level" "moderate"⟩ ∈ repaired.descendants ∧
      Tag.emphasis.ConformsFully {} "lang" (stress.setAttribute "level" "moderate") := by
  intro stress repaired
  have outer : Tag.ofName? "lang" = some .lang := by decide
  have inner : Tag.ofName? "emphasis" = some .emphasis := by decide
  have checkedOuter : Tag.lang.check (.under {} "" 0) { name := "lang", children := some [stress] } =
      ⟨Repairing.repaired (.start { name := "lang", children := some [stress] })
        (Dictionary.empty.insert "xml:lang" "en-US") [.lacking], .keep⟩ := rfl
  have checkedInner : Tag.emphasis.check (.under {} "lang" 0) stress =
      ⟨(Repairing.start stress).repaired (Dictionary.empty.insert "level" "moderate") [.lacking], .keep⟩ := rfl
  have mem : ⟨"lang", 0, stress.setAttribute "level" "moderate"⟩ ∈ repaired.descendants := by
    rw [descendants_check]
    simp only [stress, setAttribute] at checkedOuter checkedInner ⊢
    simp [Element.document, childList, tidy, occurrences, outer, inner, checkedOuter, checkedInner, withNodes,
      Repairing.repaired, Repairing.start]
  exact ⟨mem, conformsFully_check {} _ _ mem .emphasis inner⟩

/-- A speed of more than two hundred percent that is left as it is, since the nearest double is two hundred. -/
theorem speed_beyond_range_kept :
    let attributes := (Dictionary.empty.insert "src" "a").insert "speed" "200.00000000000001%"
    let audio : Element := { name := "audio", attributes }
    let repaired := (Config.check { platform := .google } (.document [audio])).document
    ⟨"", 0, audio⟩ ∈ repaired.descendants ∧ audio.attributes.get? "speed" = some "200.00000000000001%" ∧
      ¬∃ sign ∈ signsUpwards, ∃ n : Numeral, n.WellFormed ∧
        "200.00000000000001%".toList = Signed.text sign n "%".toList ∧ 50 ≤ n.value ∧ n.value ≤ 200 := by
  intro attributes audio repaired
  have known : Tag.ofName? "audio" = some .audio := by decide
  have kept : (Tag.audio.check (.under { platform := .google } "" 0) audio).action = .keep := by decide +kernel
  have same : (Tag.audio.check (.under { platform := .google } "" 0) audio).element.attributes = attributes := by
    decide +kernel
  have unchanged : (Tag.audio.check (.under { platform := .google } "" 0) audio).element = audio := by
    obtain ⟨changed, element⟩ := Tag.exists_check_element .audio (.under { platform := .google } "" 0) audio
    rw [element] at same ⊢
    rw [show changed = attributes from same]
    rfl
  have mem : ⟨"", 0, audio⟩ ∈ repaired.descendants := by
    have top : (Element.document [audio]).childList = [audio] := rfl
    have nameless : (Element.document [audio]).name = "" := rfl
    have inside : audio.withNodes (tidy { platform := .google } audio.name 0 audio.childList).nodes = audio := rfl
    rw [descendants_check, top, nameless, tidy_of_keep known kept]
    simp only [unchanged, inside, occurrences]
    exact List.mem_cons_self
  refine ⟨mem, by decide +kernel, ?_⟩
  rintro ⟨sign, -, n, wellFormed, read, -, below⟩
  let written : Numeral := ⟨['2', '0', '0'], "00000000000001".toList⟩
  have writtenWellFormed : written.WellFormed := ⟨by simp [written], by simp [written], by simp [written]⟩
  have spelled : "200.00000000000001%".toList = Signed.text none written "%".toList := rfl
  obtain ⟨-, rfl, -⟩ := Signed.text_inj writtenWellFormed wellFormed Leading.ends_percent Leading.ends_percent
    (spelled.symm.trans read)
  have digits : written.decimal.significand = 20000000000000001 := by decide +kernel
  have places : written.fraction.length = 14 := rfl
  rw [Numeral.value, digits, places] at below
  norm_num at below

/-- A repaired document passes every further check for the same target, and the check leaves it as it is. -/
theorem check_check (config : Config) (document : Element) (mode : FailureMode) :
    let repaired := (config.check document).document
    let again := { config with failureMode := mode }.check repaired
    again.report.violations = [] ∧ again.report.valid = true ∧ again.document = repaired := by
  intro repaired again
  have conforms : ∀ o ∈ repaired.descendants, o.ConformsFully config.toTarget := by
    rw [descendants_check]
    exact conformsFully_tidy document.name 0 document.childList
  obtain ⟨same, silent⟩ := check_of_conformsFully { config with failureMode := mode } conforms
  exact ⟨silent, (valid_check_iff _ _).2 (.inr silent), same⟩

/-- A check finds fault with nothing exactly where every node with a known tag conforms to begin with. -/
theorem violations_check_eq_nil_iff (config : Config) (document : Element) :
    ((config.check document).report.violations = [] ↔
      ∀ o ∈ document.descendants, ∀ tag, Tag.ofName? o.node.name = some tag →
        tag.Conforms config.toTarget o.parent o.node) ∧
    (({ config with failureMode := .block }.check document).report.valid = true ↔
      ∀ o ∈ document.descendants, ∀ tag, Tag.ofName? o.node.name = some tag →
        tag.Conforms config.toTarget o.parent o.node) := by
  have silent (config : Config) : (config.check document).report.violations = [] ↔
      ∀ o ∈ document.descendants, o.Conforms config.toTarget := by
    rw [violations_check]
    exact violations_tidy_eq_nil_iff document.name 0 document.childList
  refine ⟨silent config, ?_⟩
  rw [valid_check_iff, silent]
  exact or_iff_right fun differs => differs rfl

end SpeechMarkup
