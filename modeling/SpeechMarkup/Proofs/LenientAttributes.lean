import SpeechMarkup.Element.Edit
import SpeechMarkup.Proofs.AttributeValue
import SpeechMarkup.Proofs.Layout

/-! Attributes of any form. Whatever value stands where a node has its attributes, the tree around it is read as it is
read without them, and the node has the attributes that are taken out of the value. -/

namespace SpeechMarkup

open Json

namespace Element

section Places

variable {levels : Nat} {child : Option (Reader Element)} {item t : Tree} {last : Draft}
  {front behind : List (Name × Tree)} {name : Name}

theorem takes_readAttributes_iff {attributes : Attributes} :
    Takes (readAttributes levels) item attributes ↔
      ∃ v, Takes (Value.read levels) item v ∧ attributes = Attributes.ofValue v := by
  constructor
  · intro takes
    refine takes.belongs (P := fun t attributes => ∃ v, Takes (Value.read levels) t v ∧
      attributes = Attributes.ofValue v) ?_
    intro text attributes rest h
    obtain ⟨⟨v, _⟩, read, same⟩ := map_eq_ok_iff.1 h
    cases same
    obtain ⟨t, woven, takes⟩ := Json.grammatical_read levels _ _ _ read
    exact ⟨t, woven, v, takes, rfl⟩
  · rintro ⟨v, takes, rfl⟩
    exact takes_readAttributes takes

theorem drafted_attributes_iff (read : name.value? = some "attributes") :
    Drafted levels child {} (front ++ (name, item) :: behind) last ↔
      named "attributes" (front ++ behind) = [] ∧
      (∃ x, Takes (readAttributes levels) item x ∧ last.attributes = some x) ∧
      Drafted levels child {} (front ++ behind) { last with attributes := none } := by
  simp only [drafted_iff, named_append, named_cons_self read, named_cons_of_ne read, settles_middle_iff, ne_eq,
    String.reduceEq, not_false_eq_true, true_and]
  constructor
  · rintro ⟨kind, name, ⟨absent, shown⟩, children, text⟩
    exact ⟨absent, shown, kind, name, absent ▸ .rest, children, text⟩
  · rintro ⟨absent, shown, kind, name, -, children, text⟩
    exact ⟨kind, name, ⟨absent, shown⟩, children, text⟩

theorem drafted_elements_iff (read : name.value? = some "elements") :
    Drafted levels child {} (front ++ (name, t) :: behind) last ↔
      named "elements" (front ++ behind) = [] ∧
      (∃ x, Takes (readOptional (readList child)) t x ∧ last.children = some x) ∧
      Drafted levels child {} (front ++ behind) { last with children := none } := by
  simp only [drafted_iff, named_append, named_cons_self read, named_cons_of_ne read, settles_middle_iff, ne_eq,
    String.reduceEq, not_false_eq_true, true_and]
  constructor
  · rintro ⟨kind, name, attributes, ⟨absent, shown⟩, text⟩
    exact ⟨absent, shown, kind, name, attributes, absent ▸ .rest, text⟩
  · rintro ⟨absent, shown, kind, name, attributes, -, text⟩
    exact ⟨kind, name, attributes, ⟨absent, shown⟩, text⟩

theorem drafts_object_iff {members : List (Name × Tree)} : (record levels child).Drafts (.object members) last ↔
    (∀ m ∈ members, ∃ s, m.1.Decodes s) ∧ Drafted levels child {} members last := by
  constructor
  · rintro ⟨fed⟩
    exact fed_iff.1 fed
  · exact fun drafted => .object (fed_iff.2 drafted)

theorem drafts_array_cons_iff {kind name attributes : Tree} {behind : List Tree} :
    (record levels child).Drafts (.array (kind :: name :: attributes :: behind)) last ↔
      ∃ k n a, Takes (readOptional (readChoice kindChoices levels)) kind k ∧ Takes readString name n ∧
        Takes (readAttributes levels) attributes a ∧ Placed ((record levels child).fields.drop 3)
          { kind := some k, name := some n, attributes := some a } behind last := by
  constructor
  · rintro (_ | placed)
    obtain ⟨k, takesKind, placed⟩ := (placed_cons_iff_of (by simp)).1 placed
    obtain ⟨n, takesName, placed⟩ := (placed_cons_iff_of (by simp)).1 placed
    obtain ⟨a, takesAttributes, placed⟩ := (placed_cons_iff_of (by simp)).1 placed
    exact ⟨k, n, a, takesKind, takesName, takesAttributes, placed⟩
  · rintro ⟨k, n, a, takesKind, takesName, takesAttributes, placed⟩
    refine .array ((placed_cons_iff_of (by simp)).2 ⟨k, takesKind, ?_⟩)
    refine (placed_cons_iff_of (by simp)).2 ⟨n, takesName, ?_⟩
    exact (placed_cons_iff_of (by simp)).2 ⟨a, takesAttributes, placed⟩

theorem placed_attributes (attributes : Attributes) {draft : Draft} {ts : List Tree}
    (placed : Placed ((record levels child).fields.drop 3) draft ts last) :
    Placed ((record levels child).fields.drop 3) { draft with attributes := some attributes } ts
      { last with attributes := some attributes } := by
  obtain ⟨_, placed, rfl⟩ := placed.related
    (R := fun draft draft' => draft' = { draft with attributes := some attributes }) (by
      simp only [record, List.drop_succ_cons, List.drop_zero, List.forall_mem_cons]
      exact ⟨keeps_of (by simp) (by simp), keeps_of (by simp) (by simp), List.forall_mem_nil _⟩) rfl
  exact placed

theorem placed_children (x : Option (List Element)) {draft : Draft} {ts : List Tree}
    (placed : Placed ((record levels child).fields.drop 4) draft ts last) :
    last.children = draft.children ∧ Placed ((record levels child).fields.drop 4) { draft with children := some x } ts
      { last with children := some x } := by
  obtain ⟨_, placed, shown, rfl⟩ := placed.related
    (R := fun before after => before.children = draft.children ∧ after = { before with children := some x }) (by
      simp only [record, List.drop_succ_cons, List.drop_zero, List.forall_mem_cons]
      exact ⟨keeps_of (by simp) (by simp), List.forall_mem_nil _⟩) ⟨rfl, rfl⟩
  exact ⟨shown, placed⟩

end Places

section Enclosing

variable {levels index : Nat} {t : Tree} {e : Element} {whole : Tree → Tree} {before after : List Tree}
  {x : Option (List Element)}

/-- The tree of an element around the tree of the child at an index: its object, or the array of its fields. -/
inductive Encloses : Nat → (Tree → Tree) → Prop where
  | object {front behind : List (Name × Tree)} {name : Name} {before after : List Tree}
      (elements : name.value? = some "elements") :
      Encloses before.length fun t => .object (front ++ (name, .array (before ++ t :: after)) :: behind)
  | array {kind name attributes : Tree} {before after behind : List Tree} :
      Encloses before.length fun t => .array (kind :: name :: attributes :: .array (before ++ t :: after) :: behind)

theorem takes_children_inside
    (takes : Takes (readOptional (readList (within read levels))) (.array (before ++ t :: after)) x) :
    ∃ l c, levels = l + 1 ∧ Takes (read l) t c ∧ ∀ t' c', Takes (read l) t' c' →
      ∃ x', Takes (readOptional (readList (within read levels))) (.array (before ++ t' :: after)) x' ∧
        ∀ (edit : Element → Unit × Element) path (e : Element), editAt? edit path c = some ((), c') → e.children = x →
          editAt? edit (before.length :: path) e = some ((), { e with children := x' }) := by
  obtain ⟨reader, known, front, c, behind, rfl, length, earlier, own, others⟩ :=
    (takes_children_iff (grammatical_within _)).1 takes
  cases levels with
  | zero => cases known
  | succ l =>
    cases known
    refine ⟨l, c, rfl, own, fun t' c' own' => ⟨some (front ++ c' :: behind), ?_, fun edit path e edited listed => ?_⟩⟩
    · exact (takes_children_iff (grammatical_within _)).2
        ⟨_, rfl, front, c', behind, rfl, length, earlier, own', others⟩
    · simp [editAt?, childList, listed, edited, ← length]

theorem Encloses.takes (encloses : Encloses index whole) (takes : Takes (read levels) (whole t) e) :
    ∃ l c, levels = l + 2 ∧ Takes (read l) t c ∧ ∀ t' c', Takes (read l) t' c' →
      ∃ e', Takes (read levels) (whole t') e' ∧
        ∀ (edit : Element → Unit × Element) path, editAt? edit path c = some ((), c') →
          editAt? edit (index :: path) e = some ((), e') := by
  obtain _ | levels := levels
  · exact absurd takes not_takes_read_zero
  obtain ⟨last, drafts, rfl⟩ := takes_read_iff.1 takes
  cases encloses with
  | object elements =>
    obtain ⟨decodes, drafted⟩ := drafts_object_iff.1 drafts
    obtain ⟨absent, ⟨x, listed, shown⟩, drafted⟩ := (drafted_elements_iff elements).1 drafted
    obtain ⟨l, c, rfl, own, inside⟩ := takes_children_inside listed
    refine ⟨l, c, rfl, own, fun t' c' own' => ?_⟩
    obtain ⟨x', listed', edited⟩ := inside t' c' own'
    refine ⟨_, takes_read_iff.2 ⟨{ last with children := some x' }, ?_, rfl⟩, fun edit path changed => ?_⟩
    · refine drafts_object_iff.2 ⟨?_, (drafted_elements_iff elements).2 ⟨absent, ⟨_, listed', rfl⟩, drafted⟩⟩
      rw [List.forall_mem_append, List.forall_mem_cons] at decodes ⊢
      exact decodes
    · exact edited edit path _ changed (by simp [Draft.element, shown])
  | array =>
    obtain ⟨k, n, a, kind, name, attributes, placed⟩ := drafts_array_cons_iff.1 drafts
    obtain ⟨x, listed, placed⟩ := (placed_cons_iff_of (by simp)).1 placed
    -- Only the text is left to be placed, and it is placed behind other children alike.
    have text : Placed ((record levels (within read levels)).fields.drop 4) _ _ last := placed
    obtain ⟨l, c, rfl, own, inside⟩ := takes_children_inside listed
    refine ⟨l, c, rfl, own, fun t' c' own' => ?_⟩
    obtain ⟨x', listed', edited⟩ := inside t' c' own'
    obtain ⟨shown, placed'⟩ := placed_children x' text
    refine ⟨_, takes_read_iff.2 ⟨{ last with children := some x' }, ?_, rfl⟩, fun edit path changed => ?_⟩
    · exact drafts_array_cons_iff.2
        ⟨k, n, a, kind, name, attributes, (placed_cons_iff_of (by simp)).2 ⟨x', listed', placed'⟩⟩
    · exact edited edit path _ changed (by simp [Draft.element, shown])

end Enclosing

section Carrying

variable {item bare full : Tree} {path : List Nat} {levels inner : Nat} {v : Value} {e : Element}

/-- The second tree is the first one with this item for the attributes of the node at a path: as a member of an object
that has none of the name, or in the place of `null` in the array of its fields. -/
inductive Carries (item : Tree) : List Nat → Tree → Tree → Prop where
  | member {front behind : List (Name × Tree)} {name : Name} (read : name.value? = some "attributes")
      (absent : named "attributes" (front ++ behind) = []) :
      Carries item [] (.object (front ++ behind)) (.object (front ++ (name, item) :: behind))
  | place {kind name : Tree} {behind : List Tree} :
      Carries item [] (.array (kind :: name :: .null :: behind)) (.array (kind :: name :: item :: behind))
  | inside {index : Nat} {path : List Nat} {whole : Tree → Tree} {bare full : Tree} (encloses : Encloses index whole)
      (carries : Carries item path bare full) : Carries item (index :: path) (whole bare) (whole full)

def withAttributes (attributes : Attributes) (e : Element) : Unit × Element :=
  ((), { e with attributes })

theorem Carries.length_lt (carries : Carries item path bare full) (takes : Takes (read levels) bare e) :
    2 * path.length < levels := by
  induction carries generalizing levels e with
  | member | place => exact Nat.pos_of_ne_zero fun none => not_takes_read_zero (none ▸ takes)
  | inside encloses _ ih =>
    obtain ⟨l, c, rfl, own, -⟩ := encloses.takes takes
    have below := ih own
    rw [List.length_cons]
    omega

theorem Carries.takes (carries : Carries item path bare full) (enough : levels = inner + 2 * path.length + 1)
    (value : Takes (Value.read inner) item v) (takes : Takes (read levels) bare e) :
    ∃ e', Takes (read levels) full e' ∧ editAt? (withAttributes (.ofValue v)) path e = some ((), e') := by
  induction carries generalizing levels e with
  | member read absent =>
    subst enough
    obtain ⟨last, drafts, rfl⟩ := takes_read_iff.1 takes
    obtain ⟨decodes, drafted⟩ := drafts_object_iff.1 drafts
    -- Without the member the place of the attributes is open, so the draft only gains what the item is read as.
    have same : { last with attributes := none } = last := by
      have own := drafted.attributes
      rw [absent, settles_nil_iff] at own
      obtain ⟨_, _, attributes, _, _⟩ := last
      obtain rfl : none = attributes := own
      rfl
    refine ⟨_, takes_read_iff.2 ⟨{ last with attributes := some (.ofValue v) }, ?_, rfl⟩, rfl⟩
    refine drafts_object_iff.2 ⟨?_, (drafted_attributes_iff read).2 ⟨absent, ⟨_, takes_readAttributes value, rfl⟩, ?_⟩⟩
    · rw [List.forall_mem_append] at decodes
      rw [List.forall_mem_append, List.forall_mem_cons]
      exact ⟨decodes.1, ⟨_, Name.value?_eq_some_iff.1 read⟩, decodes.2⟩
    · exact same.symm ▸ drafted
  | place =>
    subst enough
    obtain ⟨last, drafts, rfl⟩ := takes_read_iff.1 takes
    obtain ⟨k, n, _, kind, name, -, placed⟩ := drafts_array_cons_iff.1 drafts
    have drafts := drafts_array_cons_iff.2
      ⟨k, n, _, kind, name, takes_readAttributes value, placed_attributes (.ofValue v) placed⟩
    exact ⟨_, takes_read_iff.2 ⟨_, drafts, rfl⟩, rfl⟩
  | inside encloses _ ih =>
    obtain ⟨l, c, rfl, own, inside⟩ := encloses.takes takes
    rw [List.length_cons] at enough
    obtain ⟨c', own', edited⟩ := ih (by omega) own
    obtain ⟨e', takes', changed⟩ := inside _ c' own'
    exact ⟨e', takes', changed _ _ edited⟩

/-- Nothing is asked of the item but that it is read as a value. -/
theorem Carries.exists_takes (carries : Carries item path bare full) (takes : Takes (read levels) full e) :
    (∃ inner v, levels = inner + 2 * path.length + 1 ∧ Takes (Value.read inner) item v) ∧
      ∃ e, Takes (read levels) bare e := by
  induction carries generalizing levels e with
  | member read absent =>
    obtain _ | levels := levels
    · exact absurd takes not_takes_read_zero
    obtain ⟨last, drafts, rfl⟩ := takes_read_iff.1 takes
    obtain ⟨decodes, drafted⟩ := drafts_object_iff.1 drafts
    obtain ⟨-, ⟨a, shown, -⟩, drafted⟩ := (drafted_attributes_iff read).1 drafted
    obtain ⟨v, value, -⟩ := takes_readAttributes_iff.1 shown
    refine ⟨⟨levels, v, rfl, value⟩, _, takes_read_iff.2 ⟨_, drafts_object_iff.2 ⟨?_, drafted⟩, rfl⟩⟩
    rw [List.forall_mem_append, List.forall_mem_cons] at decodes
    exact List.forall_mem_append.2 ⟨decodes.1, decodes.2.2⟩
  | place =>
    obtain _ | levels := levels
    · exact absurd takes not_takes_read_zero
    obtain ⟨last, drafts, rfl⟩ := takes_read_iff.1 takes
    obtain ⟨k, n, a, kind, name, attributes, placed⟩ := drafts_array_cons_iff.1 drafts
    obtain ⟨v, value, -⟩ := takes_readAttributes_iff.1 attributes
    have drafts := drafts_array_cons_iff.2
      ⟨k, n, _, kind, name, takes_null_attributes, placed_attributes .empty placed⟩
    exact ⟨⟨levels, v, rfl, value⟩, _, takes_read_iff.2 ⟨_, drafts, rfl⟩⟩
  | inside encloses _ ih =>
    obtain ⟨l, c, rfl, own, inside⟩ := encloses.takes takes
    obtain ⟨⟨inner, v, rfl, value⟩, c', own'⟩ := ih own
    obtain ⟨e', takes', -⟩ := inside _ c' own'
    refine ⟨⟨inner, v, ?_, value⟩, e', takes'⟩
    rw [List.length_cons]
    omega

/-- Attributes are read leniently. Where an element is accepted without the attributes of a node, it is accepted with
every value in their place that is read at all, and the node has what is taken out of the value. What is written for
attributes is read back as these. -/
theorem parse_carried {itemText bareText text : String} (carries : Carries item path bare full)
    (itemSpelled : item.Spells itemText.toList) (bareSpelled : bare.Spells bareText.toList)
    (spelled : full.Spells text.toList) :
    let readItem := readAll (Value.read (maxLevels - 1 - 2 * path.length)) itemText
    (∀ e v, parse bareText = .ok e → readItem = .ok v → Attributes.TakenFrom v (.ofValue v) ∧
      ∃ e', parse text = .ok e' ∧ editAt? (withAttributes (.ofValue v)) path e = some ((), e')) ∧
    (∀ e', parse text = .ok e' → (∃ v, readItem = .ok v) ∧ ∃ e, parse bareText = .ok e) ∧
    ∀ e attributes, parse bareText = .ok e → 2 * path.length + 1 < maxLevels → attributes.toValue.TextOf itemText →
      ∃ e', parse text = .ok e' ∧ editAt? (withAttributes attributes) path e = some ((), e') := by
  intro readItem
  have bareRead {e : Element} : parse bareText = .ok e ↔ Takes (read maxLevels) bare e :=
    bareSpelled.readAll_eq_ok_iff (grammatical_read maxLevels)
  have fullRead {e : Element} : parse text = .ok e ↔ Takes (read maxLevels) full e :=
    spelled.readAll_eq_ok_iff (grammatical_read maxLevels)
  have itemRead {v : Value} : readItem = .ok v ↔ Takes (Value.read (maxLevels - 1 - 2 * path.length)) item v :=
    itemSpelled.readAll_eq_ok_iff (Json.grammatical_read _)
  have carried {e : Element} {v : Value} (without : parse bareText = .ok e) (value : readItem = .ok v) :
      ∃ e', parse text = .ok e' ∧ editAt? (withAttributes (.ofValue v)) path e = some ((), e') := by
    have takes := bareRead.1 without
    have below := carries.length_lt takes
    obtain ⟨e', takes', edited⟩ := carries.takes (by omega) (itemRead.1 value) takes
    exact ⟨e', fullRead.2 takes', edited⟩
  refine ⟨fun e v without value => ⟨Attributes.takenFrom_ofValue v, carried without value⟩, fun e' accepted => ?_,
    fun e attributes without enough written => ?_⟩
  · obtain ⟨⟨inner, v, levels, value⟩, e, takes⟩ := carries.exists_takes (fullRead.1 accepted)
    obtain rfl : inner = maxLevels - 1 - 2 * path.length := by omega
    exact ⟨⟨v, itemRead.2 value⟩, e, bareRead.2 takes⟩
  · obtain ⟨inner, levels⟩ : ∃ inner, maxLevels - 1 - 2 * path.length = inner + 1 :=
      ⟨maxLevels - 1 - 2 * path.length - 1, by omega⟩
    have back {w : Value} (same : attributes.toValue.Same w) (spells : w.tree.Spells itemText.toList) :
        readItem = .ok w := by
      rw [itemRead, levels, itemSpelled.unique spells]
      exact Attributes.takes_read same
    obtain ⟨w, same, value⟩ : ∃ w, attributes.toValue.Same w ∧ readItem = .ok w := by
      cases written with
      | @line w same => exact ⟨w, same, back same (by rw [String.toList_ofList]; exact w.spells_tree.1)⟩
      | @indented w same indent =>
        exact ⟨w, same, back same (by rw [String.toList_ofList]; exact w.spells_tree.2 indent)⟩
    rw [← Attributes.ofValue_of_same same]
    exact carried without value

/-- The last member named `src` is `null`, which takes the earlier one away and shows nothing itself. The number is
shown in its own text, not in the one that it is read from. -/
theorem parse_carried_src :
    let text := "\x7b\"elements\":[\x7b\"name\":\"audio\",\"attributes\":" ++
      "\x7b\"src\":\"a\",\"src\":null,\"id\":\"b\",\"speed\":12.50E1,\"on\":true\x7d\x7d]\x7d"
    let shown := ((Dictionary.empty.insert "id" "b").insert "speed" "125.0").insert "on" "true"
    parse text = .ok (document [{ name := "audio", attributes := shown }]) := by
  intro text shown
  let numeral : NumberText := ⟨false, ['1', '2'], some ['5', '0'], some (false, ['1'])⟩
  let number : Number := .float (.signed false (.ofNat 125))
  have written : numeral.Spells "12.50E1".toList :=
    .intro (n := numeral) ⟨by simp [numeral], by simp [numeral]⟩ (by simp [numeral]) (.some ⟨by simp, by simp⟩)
      (.bare (.inr rfl) ⟨by simp, by simp⟩)
  let v : Value := .object
    [("src", .string "a"), ("src", .null), ("id", .string "b"), ("speed", .number number), ("on", .bool true)]
  let item : Tree := .object [(.ofString "src", (Value.string "a").tree), (.ofString "src", .null),
    (.ofString "id", (Value.string "b").tree), (.ofString "speed", .scalar ⟨_, .number written⟩),
    (.ofString "on", .scalar (.ofBool true))]
  have read : readAll (Value.read 124) (String.ofList item.tokens.flatten) = .ok v := by
    have null : Takes (Value.read 123) Value.null.tree .null :=
      Attributes.takes_value_scalar takes_null_head (by simp [Value.head]) (by simp [Value.head])
    have speed : Takes (Value.read 123) (.scalar ⟨_, .number written⟩) (.number number) :=
      Attributes.takes_value_scalar (takes_number written (by decide +kernel)) (by simp [Value.head])
        (by simp [Value.head])
    have on : Takes (Value.read 123) (.scalar (.ofBool true)) (.bool true) :=
      Attributes.takes_value_scalar (takes_bool true) (by simp [Value.head]) (by simp [Value.head])
    have takes : Takes (Value.read 124) item v := Attributes.takes_value_object
      (.cons ⟨Name.decodes_ofString _, Attributes.takes_value_string _⟩ (.cons ⟨Name.decodes_ofString _, null⟩
        (.cons ⟨Name.decodes_ofString _, Attributes.takes_value_string _⟩ (.cons ⟨Name.decodes_ofString _, speed⟩
          (.cons ⟨Name.decodes_ofString _, on⟩ .nil)))))
    exact takes.readAll (by rw [String.toList_ofList]; exact item.spells_flatten)
  have without : parse "\x7b\"elements\":[\x7b\"name\":\"audio\"\x7d]\x7d" = .ok (document [{ name := "audio" }]) :=
    (parse_line (document [{ name := "audio" }])).trans (if_pos (by decide))
  let elements : Name := ⟨"elements".toList, .of_plain rfl⟩
  let name : Name := ⟨"name".toList, .of_plain rfl⟩
  let attributes : Name := ⟨"attributes".toList, .of_plain rfl⟩
  let audio : Tree := .scalar ⟨"\"audio\"".toList, .string (.of_plain rfl : InString "audio".toList)⟩
  have member : Carries item [] (.object [(name, audio)]) (.object [(name, audio), (attributes, item)]) :=
    @Carries.member _ [(name, audio)] [] attributes rfl (by decide)
  have carries := Carries.inside (@Encloses.object [] [] elements [] [] rfl) member
  have itemSpelled : item.Spells (String.ofList item.tokens.flatten).toList := by
    rw [String.toList_ofList]
    exact item.spells_flatten
  let full : Tree := .object [(elements, .array [.object [(name, audio), (attributes, item)]])]
  have tokens : full.tokens.flatten = text.toList := by
    simp [full, elements, name, audio, attributes, item, text, Tree.tokens, Tree.itemTokens, Tree.memberTokens,
      Tree.comma, Tree.null, Value.tree, Name.token, Name.ofString, Name.scalar, Scalar.ofBool, escapeChar]
  have spelled : full.Spells text.toList := tokens ▸ full.spells_flatten
  obtain ⟨-, e', accepted, edited⟩ :=
    (parse_carried carries itemSpelled (Tree.spells_flatten _) spelled).1 _ v without read
  have taken : Attributes.ofValue v = shown := by decide +kernel
  rw [taken] at edited
  cases edited
  exact accepted

end Carrying

end Element

end SpeechMarkup
