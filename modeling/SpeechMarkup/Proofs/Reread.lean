import SpeechMarkup.Proofs.ElementText
import SpeechMarkup.Proofs.Losses

/-! Repaired documents read again from their own text. A repair adds at most one level to a document, where it gives
attributes to an innermost node that has none. A document that was read may need all levels that are allowed; with one
more it is refused. Up to there it is read as it was written, and nothing is found fault with any more. -/

namespace SpeechMarkup

open Element

namespace Element

theorem deepest_append (a b : List Element) : deepest (a ++ b) = max (deepest a) (deepest b) := by
  induction a with
  | nil => rw [List.nil_append, deepest, Nat.zero_max]
  | cons e rest ih => rw [List.cons_append, deepest, deepest, ih, Nat.max_assoc]

theorem deepest_filter_le (p : Element → Bool) (es : List Element) : deepest (es.filter p) ≤ deepest es :=
  deepest_le_iff.2 fun e he => deepest_le_iff.1 (Nat.le_refl _) e (List.mem_of_mem_filter he)

theorem deepest_lt_levels {e : Element} {children : List Element} (has : e.children = some children) :
    deepest children + 1 < e.levels := by
  obtain ⟨_, _, _, _ | _, _⟩ := e
  · cases has
  · cases has
    rw [levels]
    omega

theorem deepest_childList_lt (e : Element) : deepest e.childList < e.levels := by
  cases has : e.children with
  | none =>
    rw [childList, has]
    exact e.levels_pos
  | some children =>
    rw [childList, has]
    exact Nat.lt_of_succ_lt (deepest_lt_levels has)

/-- Where a list of children is put in the place of another, one level more in the list is at most one level more in
the node, whatever attributes the node gets. -/
theorem levels_withNodes_le {e e' : Element} {nodes : List Element} (listed : e'.children.isSome = e.children.isSome)
    (low : deepest nodes ≤ deepest e.childList + 1) : (e'.withNodes nodes).levels ≤ e.levels + 1 := by
  refine levels_le_succ_iff.2 ⟨.inr e.levels_pos, fun es found => ?_⟩
  obtain ⟨old, had, rfl⟩ := Option.map_eq_some_iff.1 found
  obtain ⟨children, has⟩ := Option.isSome_iff_exists.1 (listed.symm.trans (Option.isSome_iff_exists.2 ⟨old, had⟩))
  have inside := deepest_lt_levels has
  rw [childList, has, Option.getD_some] at low
  omega

end Element

theorem Tag.isSome_children_check (tag : Tag) (place : Place) (e : Element) :
    (tag.check place e).element.children.isSome = e.children.isSome := by
  obtain ⟨_, changed⟩ := exists_check_element tag place e
  rw [changed]
  split
  · exact Option.isSome_map
  · rfl

theorem deepest_tidy_le (target : Target) (parent : String) (index : Nat) (nodes : List Element) :
    deepest (tidy target parent index nodes).nodes ≤ deepest nodes + 1 := by
  fun_induction tidy target parent index nodes with
  | case1 parent index => exact Nat.zero_le _
  | case2 parent index e rest unknown inner later ihInner ihLater =>
    have node : (e.withNodes inner.nodes).levels ≤ e.levels + 1 := levels_withNodes_le rfl ihInner
    have behind : deepest later.nodes ≤ deepest rest + 1 := ihLater
    simp only [deepest]
    omega
  | case3 parent index e rest tag known outcome visit action later ih =>
    have behind : deepest later.nodes ≤ deepest rest + 1 := ih
    simp only [deepest]
    omega
  | case4 parent index e rest tag known outcome visit action later ih =>
    have behind : deepest later.nodes ≤ deepest (e.childList ++ rest) + 1 := ih
    have inside := deepest_childList_lt e
    rw [deepest_append] at behind
    simp only [deepest]
    omega
  | case5 parent index e rest tag known outcome visit action inner later ihInner ihLater =>
    have fewer : deepest outcome.element.childList ≤ deepest e.childList := by
      rw [Tag.childList_check]
      split
      · exact deepest_filter_le ..
      · exact Nat.le_refl _
    have node : (outcome.element.withNodes inner.nodes).levels ≤ e.levels + 1 :=
      levels_withNodes_le (tag.isSome_children_check _ e) (ihInner.trans (Nat.succ_le_succ fewer))
    have behind : deepest later.nodes ≤ deepest rest + 1 := ihLater
    simp only [deepest]
    omega

theorem levels_check_le (config : Config) (document : Element) :
    (config.check document).document.levels ≤ document.levels + 1 := by
  rw [document_check]
  exact levels_withNodes_le rfl (deepest_tidy_le ..)

section Text

theorem checkText_line (config : Config) (e : Element) :
    config.checkText e.line = if e.levels ≤ 127 then .ok (config.check e) else .error .recursionLimit := by
  have read : parse e.line = if e.levels ≤ 127 then .ok e else .error .recursionLimit := parse_line e
  rw [Config.checkText, read]
  split <;> rfl

/-- A repaired document with the levels that are allowed is read again as it is, and nothing is found fault with. It
has one more at most, and with that one more it is not read again. -/
theorem checkText_line_of_checkText {config : Config} {text : String} {checked : Checked}
    (h : config.checkText text = .ok checked) :
    checked.document.levels ≤ 128 ∧
      (checked.document.levels ≤ 127 → ∃ again, config.checkText checked.document.line = .ok again ∧
        again.document = checked.document ∧ again.report.violations = []) ∧
      (checked.document.levels = 128 → config.checkText checked.document.line = .error .recursionLimit) := by
  obtain ⟨document, read, rfl⟩ := Json.map_eq_ok_iff.1 h
  have most : document.levels ≤ 127 := levels_of_parse read
  refine ⟨(levels_check_le config document).trans (Nat.succ_le_succ most), fun low => ?_, fun high => ?_⟩
  · have conforms : ∀ o ∈ (config.check document).document.descendants, o.ConformsFully config.toTarget := by
      rw [descendants_check]
      exact conformsFully_tidy document.name 0 document.childList
    exact ⟨_, (checkText_line ..).trans (if_pos low), check_of_conformsFully config conforms⟩
  · refine (checkText_line ..).trans (if_neg ?_)
    rw [high]
    decide

theorem checkText_line_of_checkText_pause :
    Config.checkText {} "\x7b\"elements\":[\x7b\"name\":\"break\"\x7d]\x7d" =
        .ok (Config.check {} (document [{ name := "break" }])) ∧
      ∃ again, Config.checkText {} (Config.check {} (document [{ name := "break" }])).document.line = .ok again ∧
        again.document = (Config.check {} (document [{ name := "break" }])).document ∧
        again.report.violations = [] := by
  have read : Config.checkText {} (document [{ name := "break" }]).line =
      .ok (Config.check {} (document [{ name := "break" }])) := (checkText_line ..).trans (if_pos (by decide))
  have one : (document [{ name := "break" }]).levels ≤ 126 := by decide
  have few := (levels_check_le {} (document [{ name := "break" }])).trans (Nat.succ_le_succ one)
  exact ⟨read, (checkText_line_of_checkText read).2.1 few⟩

end Text

section Deepest

def Element.nested : Nat → Element → Element
  | 0, e => e
  | n + 1, e => document [nested n e]

theorem levels_nested (n : Nat) (e : Element) : (nested n e).levels = 2 * n + e.levels := by
  induction n with
  | zero => simp [nested]
  | succ n ih =>
    have one : (document [nested n e]).levels = 2 + (nested n e).levels := by
      simp [document, levels, deepest, Dictionary.isEmpty, Dictionary.empty]
      omega
    rw [nested, one, ih]
    omega

theorem tidy_nested (target : Target) (n : Nat) {e e' : Element}
    (bottom : (tidy target "" 0 [e]).nodes = [e']) :
    (tidy target "" 0 [nested n e]).nodes = [nested n e'] := by
  induction n with
  | zero => exact bottom
  | succ n ih =>
    have nameless : Tag.ofName? (nested (n + 1) e).name = none := (by decide : Tag.ofName? "" = none)
    have inside : (tidy target (nested (n + 1) e).name 0 (nested (n + 1) e).childList).nodes = [nested n e'] := ih
    rw [tidy_of_unknown nameless]
    simp only [inside, tidy]
    rfl

theorem document_check_nested (config : Config) (n : Nat) {e e' : Element}
    (bottom : (tidy config.toTarget "" 0 [e]).nodes = [e']) :
    (config.check (nested (n + 1) e)).document = nested (n + 1) e' := by
  have inside : (tidy config.toTarget (nested (n + 1) e).name 0 (nested (n + 1) e).childList).nodes = [nested n e'] :=
    tidy_nested _ n bottom
  rw [document_check, inside]
  rfl

theorem tidy_pause : (tidy {} "" 0 [{ name := "break" }]).nodes =
    [{ name := "break", attributes := Dictionary.empty.insert "strength" "medium" }] := by
  have known : Tag.ofName? "break" = some .pause := by decide
  rw [tidy_of_keep known rfl]
  simp only [tidy]
  rfl

theorem checkText_line_nested :
    Config.checkText {} (nested 63 { name := "break" }).line = .ok (Config.check {} (nested 63 { name := "break" })) ∧
      Config.checkText {} (Config.check {} (nested 63 { name := "break" })).document.line =
        .error .recursionLimit := by
  -- The wrappers take two levels each and the pause one; the attributes that it gets take the one too many.
  have repaired := document_check_nested {} 62 tidy_pause
  constructor
  · refine (checkText_line ..).trans (if_pos ?_)
    rw [levels_nested]
    decide
  · refine (checkText_line ..).trans (if_neg ?_)
    rw [repaired, levels_nested]
    decide

end Deepest

end SpeechMarkup
