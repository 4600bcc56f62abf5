import SpeechMarkup.Proofs.Relabelling
import SpeechMarkup.Proofs.Rounds

/-! What the kind of a node has to do with a check. A node whose name has no tag, be it a text, a comment or an element,
is left as it is and causes no record but that of a timed container that drops it, and it goes only from there or with
a node around it. A node whose name has a tag is under the rule of the tag, whatever kind it is of. -/

namespace SpeechMarkup

open Element

theorem Loss.Justified.of_unknown {target : Target} {loss : Loss} (justified : loss.Justified target)
    (unknown : Tag.ofName? loss.node.name = none) : loss.reason = .untimed ∧ loss.parent ∈ ["par", "seq"] := by
  have other (tag : Tag) (name : loss.node.name = tag.name) : False := by
    rw [name, Tag.ofName?_name] at unknown
    cases unknown
  obtain ⟨parent, e, reason⟩ := loss
  cases reason with
  | unsupported =>
    obtain ⟨tag, known, -⟩ := justified
    cases unknown.symm.trans known
  | sourceless => exact (other .audio justified.1).elim
  | misplaced => exact (other .desc justified.1).elim
  | untimed => exact ⟨rfl, justified.1⟩

theorem Judged.unchanged {target : Target} {o : Occurrence} {visit : Visit} (h : Judged target o visit) :
    o.node.label = visit.found.label ∧
      (Tag.ofName? visit.found.name = none → o.node.attributes = visit.found.attributes) := by
  have left : o.node.label = visit.result.label ∧ o.node.attributes = visit.result.attributes := by
    rw [h.node]
    exact ⟨rfl, rfl⟩
  have ruling := h.ruling
  rw [← h.name] at ruling
  cases known : Tag.ofName? visit.found.name with
  | none =>
    have result : visit.result = visit.found := by
      rw [Visit.result, ruling, known]
      rfl
    exact ⟨result ▸ left.1, fun _ => result ▸ left.2⟩
  | some tag =>
    have result : visit.result = (tag.check (.under target o.parent o.index) visit.found).element := by
      rw [Visit.result, ruling, known]
      rfl
    refine ⟨left.1.trans ?_, fun unknown => ?_⟩
    · rw [result, Tag.label_check]
    · cases unknown

theorem exists_originals (config : Config) (document : Element) :
    ∃ originals, originals.Sublist (document.descendants.map Occurrence.node) ∧
      List.Forall₂ (fun o original => o.node.label = original.label ∧
          (Tag.ofName? original.name = none → o.node.attributes = original.attributes))
        (config.check document).document.descendants originals := by
  have found := sublist_found_walk config.toTarget document
  let stayed := (walk config.toTarget document).2.filter Visit.stays
  refine ⟨stayed.map Visit.found, (List.filter_sublist.map Visit.found).trans found, ?_⟩
  rw [List.forall₂_map_right_iff]
  exact (judged_walk config.toTarget document).imp fun o visit h => h.unchanged

theorem Tag.timed_of_mem_violations {tag : Tag} {place : Place} {e : Element} {violation : Violation}
    (mem : violation ∈ (tag.check place e).violations) (bare : violation.attr = none) (named : violation.value ≠ none) :
    tag = par ∨ tag = seq := by
  rw [check_eq_plan] at mem
  obtain ⟨repair, made, rfl⟩ := List.mem_map.1 mem
  cases repair with
  | dropped child =>
    cases tag with
    | desc => simp only [plan, planDesc] at made; split at made <;> simp at made
    | par => exact .inl rfl
    | seq => exact .inr rfl
    | speak => cases made
    | _ => exact absurd rfl (ne_dropped_of_mem made child)
  | misplaced => exact absurd rfl named
  | _ => cases bare

theorem exists_node_of_mem_violations {config : Config} {document : Element} {violation : Violation}
    (mem : violation ∈ (config.check document).report.violations) :
    ∃ o ∈ document.descendants, ∃ tag place, Tag.ofName? o.node.name = some tag ∧ place.target = config.toTarget ∧
      violation ∈ (tag.check place o.node).violations ∧ violation.tag = o.node.name ∧
      (violation.attr = none → violation.value ≠ none → tag = .par ∨ tag = .seq) := by
  obtain ⟨visit, visited, mem⟩ := List.mem_flatMap.1 mem
  have found := (sublist_found_walk config.toTarget document).mem (List.mem_map_of_mem visited)
  obtain ⟨o, inside, same⟩ := List.mem_map.1 found
  have ruled := ruled_walk config.toTarget document visit visited
  cases made : visit.ruling with
  | none =>
    rw [Visit.violations, made] at mem
    cases mem
  | some ruling =>
    obtain ⟨known, place, target, outcome⟩ := ruled ruling made
    rw [Visit.violations, made] at mem
    simp only [outcome] at mem
    rw [← same] at known mem
    refine ⟨o, inside, ruling.tag, place, known, target, mem, ?_, Tag.timed_of_mem_violations mem⟩
    exact Tag.tag_of_mem_violations mem

/-- Other kinds for the nodes of a tree, under the names that they have. -/
def Relabelling.ofKinds (kind : Option NodeKind → Option NodeKind) : Relabelling := ⟨kind, id, fun _ => rfl⟩

def Violation.withoutChild (violation : Violation) : Violation :=
  { violation with value := if violation.attr = none then none else violation.value }

theorem Relabelling.Retells.withoutChild_eq {kind : Option NodeKind → Option NodeKind} {violation told : Violation}
    (h : (ofKinds kind).Retells violation told) : told.withoutChild = violation.withoutChild := by
  cases h <;> rfl

theorem violations_check_ofKinds (kind : Option NodeKind → Option NodeKind) (config : Config) (document : Element) :
    (config.check ((Relabelling.ofKinds kind).apply document)).report.violations.map Violation.withoutChild =
      (config.check document).report.violations.map Violation.withoutChild := by
  obtain ⟨-, retold⟩ := (Relabelling.ofKinds kind).matches_check config document
  rw [eq_comm, ← List.forall₂_eq_eq_eq, List.forall₂_map_left_iff, List.forall₂_map_right_iff]
  exact retold.imp fun _ _ h => h.withoutChild_eq.symm

/-- An instruction that is named like a recording, outside of everything, is taken for one: it is removed for want of a
source, and that is recorded. -/
theorem check_instruction :
    let instruction : Element := { kind := some .instruction, name := "audio" }
    (Element.document [instruction]).descendants = [⟨"", 0, instruction⟩] ∧
      (Config.check {} (.document [instruction])).document.descendants = [] ∧
      (Config.check {} (.document [instruction])).report.violations = [⟨"audio", some "none", none⟩] := by
  intro instruction
  have known : Tag.ofName? "audio" = some .audio := by decide
  have checked : Tag.audio.check (.under {} "" 0) instruction =
      Plan.outcome ⟨instruction, [.lacking], .remove⟩ := rfl
  have tidied : tidy {} "" 0 [instruction] =
      ⟨[], [⟨0, instruction, some ⟨.audio, Tag.audio.check (.under {} "" 0) instruction⟩⟩]⟩ := by
    rw [tidy_of_remove known (by rw [checked]; rfl)]
    simp only [tidy]
  refine ⟨?_, ?_, ?_⟩
  · simp [instruction, Element.document, descendants, childList, occurrences]
  · have none : (tidy {} "" 0 [instruction]).nodes = [] := by rw [tidied]
    rw [descendants_check]
    exact (congrArg (occurrences "" 0) none).trans (by rw [occurrences])
  · rw [violations_check]
    exact (congrArg Tidied.violations tidied).trans rfl

/-- A check goes by the names of the nodes. What is left of the document is some of its nodes in their order, each with
its label, and those without a tag have their attributes. Without a tag a node goes by itself only from a timed
container, and no record is about it but as the child of one. With other kinds for its nodes a document is repaired in
the same way and with the same verdict, and the records are the same but for the labels of dropped children. -/
theorem check_by_names (config : Config) (document : Element) :
    let checked := config.check document
    (∃ originals, originals.Sublist (document.descendants.map Occurrence.node) ∧
      List.Forall₂ (fun o original => o.node.label = original.label ∧
          (Tag.ofName? original.name = none → o.node.attributes = original.attributes))
        checked.document.descendants originals) ∧
      (∃ losses,
        Sifted config.toTarget document.name document.childList checked.document.childList losses ∧
        ∀ loss ∈ losses, Tag.ofName? loss.node.name = none → loss.reason = .untimed ∧ loss.parent ∈ ["par", "seq"]) ∧
      (∀ violation ∈ checked.report.violations, ∃ o ∈ document.descendants, ∃ tag place,
        Tag.ofName? o.node.name = some tag ∧ place.target = config.toTarget ∧
          violation ∈ (tag.check place o.node).violations ∧ violation.tag = o.node.name ∧
          (violation.attr = none → violation.value ≠ none → tag = .par ∨ tag = .seq)) ∧
      ∀ kind, let told := config.check ((Relabelling.ofKinds kind).apply document)
        told.document = (Relabelling.ofKinds kind).apply checked.document ∧
          told.report.valid = checked.report.valid ∧
          told.report.violations.map Violation.withoutChild = checked.report.violations.map Violation.withoutChild := by
  intro checked
  obtain ⟨losses, sifted, -⟩ := sifted_tidy config.toTarget document.name 0 document.childList
  rw [← childList_withNodes_tidy, ← document_check] at sifted
  refine ⟨exists_originals config document, ⟨losses, sifted, fun loss mem unknown => ?_⟩,
    fun violation mem => exists_node_of_mem_violations mem, fun kind => ⟨?_, ?_, ?_⟩⟩
  · exact (sifted.justified loss mem).of_unknown unknown
  · exact ((Relabelling.ofKinds kind).matches_check config document).1
  · have same := congrArg List.isEmpty (violations_check_ofKinds kind config document)
    rw [List.isEmpty_map, List.isEmpty_map] at same
    exact congrArg (decide (config.failureMode ≠ .block) || ·) same
  · exact violations_check_ofKinds kind config document

end SpeechMarkup
