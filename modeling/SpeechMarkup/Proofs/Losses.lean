import Mathlib.Data.List.Perm.Subperm
import SpeechMarkup.Proofs.Repaired

/-! What goes from a document. Nodes are left out or make way for their children; none is made up, moved or doubled.
Every node that goes has one of four reasons, the reasons of whole subtrees and of single wrappers kept apart, and each
of them has a record of its own in the report. -/

namespace SpeechMarkup

open Element

def Element.label (e : Element) : Option NodeKind × String × Option String :=
  (e.kind, e.name, e.text)

/-- The labels of some nodes and of all nodes inside them, in the order of the text. -/
def listing : List Element → List (Option NodeKind × String × Option String)
  | [] => []
  | e :: rest => e.label :: (listing e.childList ++ listing rest)
termination_by nodes => totalWeight nodes
decreasing_by
  · have := weight_eq e
    simp only [totalWeight]
    omega
  · exact totalWeight_cons_lt e rest

theorem listing_append (a b : List Element) : listing (a ++ b) = listing a ++ listing b := by
  induction a with
  | nil => rw [listing, List.nil_append, List.nil_append]
  | cons e rest ih => rw [List.cons_append, listing, listing, ih, List.cons_append, List.append_assoc]

inductive Reason where
  /-- An emotion or a domain that the voices of the locale do not know. -/
  | unsupported
  /-- A recording without a source. -/
  | sourceless
  /-- A description outside a recording. -/
  | misplaced
  /-- A child of a timed container that is not timed. -/
  | untimed
deriving DecidableEq

/-- A node that goes, with the name of the parent under which it was looked at. -/
structure Loss where
  parent : String
  node : Element
  reason : Reason

namespace Loss

def Justified (target : Target) (loss : Loss) : Prop :=
  match loss.reason with
  | .unsupported => ∃ tag, Tag.ofName? loss.node.name = some tag ∧ (tag = .amazonEmotion ∨ tag = .amazonDomain) ∧
      ¬tag.KnownIn target.locale
  | .sourceless => loss.node.name = "audio" ∧ loss.node.attributes.get? "src" = none
  | .misplaced => loss.node.name = "desc" ∧ loss.parent ≠ "audio"
  | .untimed => loss.parent ∈ ["par", "seq"] ∧ loss.node.name ∉ ["par", "seq", "media"]

def record (loss : Loss) : Violation :=
  match loss.reason with
  | .unsupported | .sourceless => .missingRequired loss.node.name
  | .misplaced => .misplaced loss.node.name
  | .untimed => .disallowedChild loss.parent (Tag.childLabel loss.node)

/-- The node goes by the rule of its own tag, not by that of its parent. -/
def byRule (loss : Loss) : Bool :=
  loss.reason ≠ .untimed

/-- The visit in which the rule of a node took it away. -/
structure TakenBy (target : Target) (loss : Loss) (visit : Visit) : Prop where
  found : visit.found = loss.node
  ruled : ∃ tag, Tag.ofName? loss.node.name = some tag ∧
    visit.ruling = some ⟨tag, tag.check (.under target loss.parent visit.index) loss.node⟩ ∧
    (tag.check (.under target loss.parent visit.index) loss.node).action =
      if loss.reason = .unsupported ∧ loss.node.childList ≠ [] then .unwrap else .remove

/-- The labels that go with the node: its own where its children take its place, else those of everything inside. -/
def labels (loss : Loss) : List (Option NodeKind × String × Option String) :=
  if loss.reason = .unsupported then [loss.node.label] else listing [loss.node]

end Loss

/-- How the children of a node with this name come to be those that are left: from left to right each is kept, with
its label and with children that come about in the same way, or makes way for its children, or is dropped. -/
inductive Sifted (target : Target) : (parent : String) → (nodes left : List Element) → List Loss → Prop where
  | nil {parent : String} : Sifted target parent [] [] []
  | keep {parent : String} {e e' : Element} {rest left : List Element} {inner later : List Loss}
      (same : e'.label = e.label) (inside : Sifted target e.name e.childList e'.childList inner)
      (behind : Sifted target parent rest left later) :
      Sifted target parent (e :: rest) (e' :: left) (inner ++ later)
  | unwrap {parent : String} {e : Element} {rest left : List Element} {losses : List Loss}
      (justified : Loss.Justified target ⟨parent, e, .unsupported⟩)
      (behind : Sifted target parent (e.childList ++ rest) left losses) :
      Sifted target parent (e :: rest) left (⟨parent, e, .unsupported⟩ :: losses)
  | drop {parent : String} {e : Element} {reason : Reason} {rest left : List Element} {losses : List Loss}
      (whole : reason ≠ .unsupported) (justified : Loss.Justified target ⟨parent, e, reason⟩)
      (behind : Sifted target parent rest left losses) :
      Sifted target parent (e :: rest) left (⟨parent, e, reason⟩ :: losses)

theorem Loss.Justified.not_timed {target : Target} {loss : Loss} (h : loss.Justified target) :
    loss.node.name ∉ ["par", "seq", "media"] := by
  obtain ⟨parent, e, reason⟩ := loss
  intro timed
  cases reason with
  | unsupported =>
    obtain ⟨tag, known, wrapper, -⟩ := h
    rcases Tag.of_timed timed known with rfl | rfl | rfl <;> simp at wrapper
  | sourceless =>
    have name : e.name = "audio" := h.1
    simp [name] at timed
  | misplaced =>
    have name : e.name = "desc" := h.1
    simp [name] at timed
  | untimed => exact h.2 timed

namespace Sifted

variable {target : Target} {parent : String} {nodes left : List Element} {losses : List Loss}

theorem justified (h : Sifted target parent nodes left losses) : ∀ loss ∈ losses, loss.Justified target := by
  induction h with
  | nil => simp
  | keep _ _ _ ihInside ihBehind => exact List.forall_mem_append.2 ⟨ihInside, ihBehind⟩
  | unwrap justified _ ih => exact List.forall_mem_cons.2 ⟨justified, ih⟩
  | drop _ justified _ ih => exact List.forall_mem_cons.2 ⟨justified, ih⟩

theorem listing_sublist (h : Sifted target parent nodes left losses) : (listing left).Sublist (listing nodes) := by
  induction h with
  | nil => exact List.Sublist.refl _
  | keep same _ _ ihInside ihBehind =>
    rw [listing, listing, same]
    exact (ihInside.append ihBehind).cons_cons _
  | unwrap _ _ ih =>
    rw [listing_append] at ih
    rw [listing]
    exact ih.cons _
  | @drop _ e _ rest _ _ _ _ _ ih =>
    rw [listing]
    exact (ih.trans (List.sublist_append_right (listing e.childList) (listing rest))).cons _

theorem listing_perm (h : Sifted target parent nodes left losses) :
    (listing nodes).Perm (listing left ++ losses.flatMap Loss.labels) := by
  induction h with
  | nil => simp [listing]
  | @keep _ e e' rest left inner later same _ _ ihInside ihBehind =>
    have swap : (inner.flatMap Loss.labels ++ listing left).Perm (listing left ++ inner.flatMap Loss.labels) :=
      List.perm_append_comm
    have apart := (swap.append_right (later.flatMap Loss.labels)).append_left (listing e'.childList)
    rw [listing, listing, same, List.flatMap_append, List.cons_append]
    refine .cons _ ((ihInside.append ihBehind).trans ?_)
    simpa only [List.append_assoc] using apart
  | unwrap _ _ ih =>
    rw [listing_append] at ih
    rw [listing, List.flatMap_cons, Loss.labels, if_pos rfl, List.singleton_append]
    exact (ih.cons _).trans List.perm_middle.symm
  | @drop parent e reason rest left losses whole _ _ ih =>
    have labels : Loss.labels ⟨parent, e, reason⟩ = e.label :: listing e.childList := by
      rw [Loss.labels, if_neg whole, listing, listing, List.append_nil]
    have swap : (listing e.childList ++ listing left).Perm (listing left ++ listing e.childList) :=
      List.perm_append_comm
    have apart := swap.append_right (losses.flatMap Loss.labels)
    rw [listing, List.flatMap_cons, labels, List.cons_append]
    refine .trans (.cons _ ((ih.append_left _).trans ?_)) List.perm_middle.symm
    simpa only [List.append_assoc] using apart

theorem of_timed (container : parent ∈ ["par", "seq"])
    (h : Sifted target parent (nodes.filter Tag.isTimed) left losses) :
    ∃ all, Sifted target parent nodes left all ∧ all.filter Loss.byRule = losses.filter Loss.byRule ∧
      all.Perm ((nodes.filter fun child => !Tag.isTimed child).map (⟨parent, ·, .untimed⟩) ++ losses) := by
  induction nodes generalizing left losses with
  | nil => exact ⟨losses, h, rfl, .refl _⟩
  | cons e rest ih =>
    by_cases timed : Tag.isTimed e = true
    · rw [List.filter_cons_of_pos timed] at h
      have stays {reason : Reason} : ¬Loss.Justified target ⟨parent, e, reason⟩ :=
        fun justified => justified.not_timed (Tag.isTimed_iff.1 timed)
      cases h with
      | @keep _ _ _ _ _ inner _ same inside behind =>
        obtain ⟨all, sifted, ruled, perm⟩ := ih behind
        refine ⟨_, .keep same inside sifted, ?_, (perm.append_left inner).trans ?_⟩
        · rw [List.filter_append, List.filter_append, ruled]
        simpa [timed, ← List.append_assoc] using List.perm_append_comm.append_right _
      | unwrap justified _ => exact absurd justified stays
      | drop _ justified _ => exact absurd justified stays
    · rw [List.filter_cons_of_neg timed] at h
      obtain ⟨all, sifted, ruled, perm⟩ := ih h
      have refused : Loss.Justified target ⟨parent, e, .untimed⟩ :=
        ⟨container, fun name => timed (Tag.isTimed_iff.2 name)⟩
      refine ⟨_, .drop (by decide) refused sifted, ruled, ?_⟩
      simpa [timed] using perm

end Sifted

namespace Tag

variable {tag : Tag} {target : Target} {parent : String} {index : Nat} {e : Element}

theorem supportedIn_of_ne (emotion : tag ≠ amazonEmotion) (domain : tag ≠ amazonDomain) (locale : Locale) :
    tag.supportedIn locale = true := by
  cases tag with
  | amazonEmotion => exact absurd rfl emotion
  | amazonDomain => exact absurd rfl domain
  | _ => rfl

theorem exists_loss_of_goes (known : ofName? e.name = some tag)
    (goes : (tag.check (.under target parent index) e).action ≠ .keep) :
    ∃ reason, reason ≠ .untimed ∧ Loss.Justified target ⟨parent, e, reason⟩ ∧
      Loss.record ⟨parent, e, reason⟩ ∈ (tag.check (.under target parent index) e).violations ∧
      (tag.check (.under target parent index) e).action =
        if reason = .unsupported ∧ e.childList ≠ [] then .unwrap else .remove := by
  rw [check_eq_plan] at goes ⊢
  rw [Plan.action_outcome] at goes ⊢
  rw [Plan.violations_outcome]
  cases listed : tag.allowed target.platform with
  | some names =>
    by_cases supported : tag.supportedIn (Place.under target parent index).target.locale = true
    · rw [plan_of_supported listed supported] at goes ⊢
      rw [settle_action] at goes
      by_cases sourceless : tag = audio ∧
          (tag.repairAttributes (.under target parent index) e.attributes).1.get? "src" = none
      · obtain ⟨rfl, absent⟩ := sourceless
        have name : e.name = "audio" := eq_name_of_ofName? known rfl
        have missing : e.attributes.get? "src" = none := by rwa [get?_src_repairAttributes] at absent
        refine ⟨.sourceless, by decide, ⟨name, missing⟩, ?_, ?_⟩ <;>
          simp [settle, Dictionary.contains, absent, Loss.record, Repair.violation]
      · exact absurd (if_neg sourceless) goes
    · rw [plan_of_not_supported listed supported]
      have wrapper : tag = amazonEmotion ∨ tag = amazonDomain := by
        by_contra other
        exact supported (supportedIn_of_ne (other ∘ .inl) (other ∘ .inr) _)
      have foreign : ¬tag.KnownIn target.locale := fun knownIn => supported (knownIn_iff.1 knownIn)
      refine ⟨.unsupported, by decide, ⟨tag, known, wrapper, foreign⟩, ?_, ?_⟩
      · simp [Loss.record, Repair.violation]
      · cases e.childList <;> simp
  | none =>
    rcases allowed_eq_none_iff.1 listed with rfl | rfl | rfl | rfl
    · have name : e.name = "desc" := eq_name_of_ofName? known rfl
      have outside : (Place.under target parent index).parent ≠ some "audio" := fun inside => by
        simp [plan, planDesc, inside, Tag.name] at goes
      have elsewhere : parent ≠ "audio" := fun inside => outside ((under_parent_eq_some_iff (by decide) index).2 inside)
      refine ⟨.misplaced, by decide, ⟨name, elsewhere⟩, ?_, ?_⟩ <;>
        simp [plan, planDesc, Tag.name, outside, Loss.record, Repair.violation]
    · exact absurd rfl goes
    · exact absurd rfl goes
    · exact absurd rfl goes

theorem childList_check (place : Place) (e : Element) :
    (tag.check place e).element.childList =
      if tag = par ∨ tag = seq then e.childList.filter isTimed else e.childList := by
  obtain ⟨_, changed⟩ := exists_check_element tag place e
  rw [changed]
  split
  · cases has : e.children <;> simp [childList, has]
  · rfl

theorem label_check (place : Place) (e : Element) : (tag.check place e).element.label = e.label := by
  obtain ⟨_, changed⟩ := exists_check_element tag place e
  rw [changed]
  rfl

end Tag

theorem exists_sifted_of_visit {target : Target} {parent : String} {index : Nat} {e : Element} {tag : Tag}
    (known : Tag.ofName? e.name = some tag) {left : List Element} {losses : List Loss} {inner : List Violation}
    (sifted : Sifted target e.name (tag.check (.under target parent index) e).element.childList left losses)
    (recorded : (losses.map Loss.record).Subperm inner) :
    ∃ all, Sifted target e.name e.childList left all ∧ all.filter Loss.byRule = losses.filter Loss.byRule ∧
      (all.map Loss.record).Subperm ((tag.check (.under target parent index) e).violations ++ inner) := by
  rw [Tag.childList_check] at sifted
  by_cases container : tag = .par ∨ tag = .seq
  · rw [if_pos container] at sifted
    have name : e.name ∈ ["par", "seq"] := (Tag.name_mem_containers_iff known).2 container
    have refused : (tag.check (.under target parent index) e).violations =
        ((e.childList.filter fun child => !Tag.isTimed child).map (⟨e.name, ·, .untimed⟩)).map Loss.record := by
      rw [Tag.check_eq_plan, Plan.violations_outcome]
      rcases container with rfl | rfl <;> simp [Tag.plan, Tag.planContainer, Repair.violation, Loss.record]
    obtain ⟨all, siftedAll, ruled, perm⟩ := sifted.of_timed name
    refine ⟨all, siftedAll, ruled, (perm.map _).subperm.trans ?_⟩
    rw [refused, List.map_append]
    exact (List.Subperm.refl _).append recorded
  · rw [if_neg container] at sifted
    exact ⟨losses, sifted, rfl, recorded.trans (List.sublist_append_right _ _).subperm⟩

section Taken

variable {target : Target} {visit : Visit} {visits inner later : List Visit} {losses inside behind : List Loss}

theorem taken_cons_of_stays (stays : visit.stays = true)
    (takenInside : List.Forall₂ (Loss.TakenBy target) inside (inner.filter fun visit => !visit.stays))
    (takenBehind : List.Forall₂ (Loss.TakenBy target) behind (later.filter fun visit => !visit.stays)) :
    List.Forall₂ (Loss.TakenBy target) (inside ++ behind)
      ((visit :: (inner ++ later)).filter fun visit => !visit.stays) := by
  rw [List.filter_cons_of_neg (by simp [stays]), List.filter_append]
  exact List.rel_append takenInside takenBehind

theorem taken_cons_of_goes {loss : Loss} (byRule : loss.byRule = true) (goes : visit.stays = false)
    (here : loss.TakenBy target visit)
    (behind : List.Forall₂ (Loss.TakenBy target) (losses.filter Loss.byRule) (visits.filter fun visit => !visit.stays)) :
    List.Forall₂ (Loss.TakenBy target) ((loss :: losses).filter Loss.byRule)
      ((visit :: visits).filter fun visit => !visit.stays) := by
  rw [List.filter_cons_of_pos byRule, List.filter_cons_of_pos (by simp [goes])]
  exact .cons here behind

end Taken

/-- The losses of a walk. Those that go by their own rule belong one by one, in their order, to the visits after which
the node went. -/
theorem sifted_tidy (target : Target) (parent : String) (index : Nat) (nodes : List Element) :
    ∃ losses, Sifted target parent nodes (tidy target parent index nodes).nodes losses ∧
      List.Forall₂ (Loss.TakenBy target) (losses.filter Loss.byRule)
        ((tidy target parent index nodes).visits.filter fun visit => !visit.stays) ∧
      (losses.map Loss.record).Subperm (tidy target parent index nodes).violations := by
  fun_induction tidy target parent index nodes with
  | case1 parent index => exact ⟨[], .nil, .nil, List.Subperm.refl _⟩
  | case2 parent index e rest unknown inner later ihInner ihLater =>
    obtain ⟨inside, siftedInside, takenInside, recordedInside⟩ := ihInner
    obtain ⟨behind, siftedBehind, takenBehind, recordedBehind⟩ := ihLater
    rw [← childList_withNodes_tidy] at siftedInside
    refine ⟨inside ++ behind, .keep rfl siftedInside siftedBehind, ?_, ?_⟩
    · rw [List.filter_append]
      exact taken_cons_of_stays rfl takenInside takenBehind
    · rw [List.map_append, Tidied.violations, List.flatMap_cons, List.flatMap_append]
      exact recordedInside.append recordedBehind
  | case3 parent index e rest tag known outcome visit action later ih =>
    obtain ⟨losses, sifted, taken, recorded⟩ := ih
    have goes : visit.stays = false := by simp [visit, Visit.stays, action, Action.removesElement]
    have notKept : outcome.action ≠ .keep := by simp [action]
    obtain ⟨reason, byRule, justified, record, away⟩ := Tag.exists_loss_of_goes known notKept
    have here : Loss.TakenBy target ⟨parent, e, reason⟩ visit := ⟨rfl, tag, known, rfl, away⟩
    refine ⟨⟨parent, e, reason⟩ :: losses, ?_, taken_cons_of_goes (by simp [Loss.byRule, byRule]) goes here taken,
      (List.singleton_subperm_iff.2 record).append recorded⟩
    by_cases wrapper : reason = .unsupported
    · -- A wrapper with nothing in it is taken out at once.
      have empty : e.childList = [] := by
        by_contra full
        rw [if_pos ⟨wrapper, full⟩] at away
        cases action.symm.trans away
      subst wrapper
      refine .unwrap justified ?_
      rwa [empty]
    · exact .drop wrapper justified sifted
  | case4 parent index e rest tag known outcome visit action later ih =>
    obtain ⟨losses, sifted, taken, recorded⟩ := ih
    have goes : visit.stays = false := by simp [visit, Visit.stays, action, Action.removesElement]
    have notKept : outcome.action ≠ .keep := by simp [action]
    obtain ⟨reason, byRule, justified, record, away⟩ := Tag.exists_loss_of_goes known notKept
    have here : Loss.TakenBy target ⟨parent, e, reason⟩ visit := ⟨rfl, tag, known, rfl, away⟩
    have wrapper : reason = .unsupported := by
      by_contra other
      rw [if_neg fun both => other both.1] at away
      cases action.symm.trans away
    subst wrapper
    exact ⟨_, .unwrap justified sifted, taken_cons_of_goes rfl goes here taken,
      (List.singleton_subperm_iff.2 record).append recorded⟩
  | case5 parent index e rest tag known outcome visit action inner later ihInner ihLater =>
    obtain ⟨inside, siftedInside, takenInside, recordedInside⟩ := ihInner
    obtain ⟨behind, siftedBehind, takenBehind, recordedBehind⟩ := ihLater
    obtain ⟨all, siftedAll, ruled, recordedAll⟩ := exists_sifted_of_visit known siftedInside recordedInside
    have stays : visit.stays = true := by simp [visit, Visit.stays, action, Action.removesElement]
    have label : (outcome.element.withNodes inner.nodes).label = e.label := Tag.label_check ..
    rw [← childList_withNodes_tidy] at siftedAll
    refine ⟨all ++ behind, .keep label siftedAll siftedBehind, ?_, ?_⟩
    · rw [List.filter_append, ruled]
      exact taken_cons_of_stays stays takenInside takenBehind
    · rw [List.map_append, Tidied.violations, List.flatMap_cons, List.flatMap_append, ← List.append_assoc]
      exact recordedAll.append recordedBehind

def Element.nodes (e : Element) : List Element :=
  e :: e.descendants.map Occurrence.node

theorem map_node_occurrences (parent : String) (index : Nat) (nodes : List Element) :
    (occurrences parent index nodes).map Occurrence.node = nodes.flatMap Element.nodes := by
  induction nodes generalizing index with
  | nil => rw [occurrences]; rfl
  | cons e rest ih =>
    rw [occurrences, List.map_cons, List.map_append, ih, List.flatMap_cons, Element.nodes, descendants,
      List.cons_append]

theorem Element.nodes_eq (e : Element) : e.nodes = e :: e.childList.flatMap Element.nodes := by
  rw [Element.nodes, descendants, map_node_occurrences]

theorem Tag.sublist_childList_check (tag : Tag) (place : Place) (e : Element) :
    (tag.check place e).element.childList.Sublist e.childList := by
  rw [childList_check]
  split
  · exact List.filter_sublist
  · exact .refl _

theorem sublist_found_tidy (target : Target) (parent : String) (index : Nat) (nodes : List Element) :
    ((tidy target parent index nodes).visits.map Visit.found).Sublist (nodes.flatMap Element.nodes) := by
  fun_induction tidy target parent index nodes with
  | case1 parent index => exact .refl _
  | case2 parent index e rest unknown inner later ihInner ihLater =>
    rw [List.flatMap_cons, Element.nodes_eq, List.map_cons, List.map_append]
    exact (ihInner.append ihLater).cons_cons e
  | case3 parent index e rest tag known outcome visit action later ih =>
    rw [List.flatMap_cons, Element.nodes_eq, List.map_cons]
    exact (ih.trans (List.sublist_append_right ..)).cons_cons e
  | case4 parent index e rest tag known outcome visit action later ih =>
    rw [List.flatMap_cons, Element.nodes_eq, List.map_cons]
    rw [List.flatMap_append] at ih
    exact ih.cons_cons e
  | case5 parent index e rest tag known outcome visit action inner later ihInner ihLater =>
    have kept := (tag.sublist_childList_check (.under target parent index) e).flatMap Element.nodes
    rw [List.flatMap_cons, Element.nodes_eq, List.map_cons, List.map_append]
    exact ((ihInner.trans kept).append ihLater).cons_cons e

theorem sublist_found_walk (target : Target) (document : Element) :
    ((walk target document).2.map Visit.found).Sublist (document.descendants.map Occurrence.node) := by
  rw [walk_eq_tidy, descendants, map_node_occurrences]
  exact sublist_found_tidy ..

/-- What a check leaves is the document in its order, with some nodes gone. Every node that is not left belongs to a
loss, every loss has one of the four reasons, and each has a record of its own. -/
theorem exists_losses_check (config : Config) (document : Element) :
    (listing [(config.check document).document]).Sublist (listing [document]) ∧
      ∃ losses,
        Sifted config.toTarget document.name document.childList (config.check document).document.childList losses ∧
        (listing [document]).Perm (listing [(config.check document).document] ++ losses.flatMap Loss.labels) ∧
        (∀ loss ∈ losses, loss.Justified config.toTarget) ∧
        (losses.map Loss.record).Subperm (config.check document).report.violations := by
  obtain ⟨losses, sifted, -, recorded⟩ := sifted_tidy config.toTarget document.name 0 document.childList
  rw [← violations_check] at recorded
  rw [← childList_withNodes_tidy, ← document_check] at sifted
  have outer (e : Element) : listing [e] = e.label :: listing e.childList := by
    rw [listing, listing, List.append_nil]
  have label : (config.check document).document.label = document.label := by
    rw [document_check]
    rfl
  rw [outer, outer, label]
  exact ⟨sifted.listing_sublist.cons_cons _, losses, sifted, sifted.listing_perm.cons _, sifted.justified, recorded⟩

end SpeechMarkup
