import SpeechMarkup.Element.Format
import SpeechMarkup.Proofs.RecordText

/-! Elements read from the text that is written for them. The text of an element is read back as the same element if
the arrays and objects in it fit into the levels that are allowed, and is refused for its depth otherwise. No text is
read as an element that needs more levels than those, so that what was read once is read again from its own text. -/

namespace SpeechMarkup

open Json

section Attributes

theorem insertEntry_of_above {α : Type} {key : String} {value : α} {entries : List (String × α)}
    (above : ∀ e ∈ entries, e.1 < key) : insertEntry key value entries = entries ++ [(key, value)] := by
  induction entries with
  | nil => rfl
  | cons head rest ih =>
    obtain ⟨k, v⟩ := head
    have below : k < key := above (k, v) List.mem_cons_self
    have other : key ≠ k := fun same => String.lt_irrefl k (same ▸ below)
    rw [insertEntry, if_neg (String.lt_asymm below), if_neg other,
      ih fun e he => above e (List.mem_cons_of_mem _ he), List.cons_append]

theorem entries_foldl_insert {α : Type} {entries : List (String × α)} {d : Dictionary α}
    (sorted : KeySorted (d.entries ++ entries)) :
    (entries.foldl (fun d e => d.insert e.1 e.2) d).entries = d.entries ++ entries := by
  induction entries generalizing d with
  | nil => rw [List.foldl_nil, List.append_nil]
  | cons e entries ih =>
    have above : ∀ b ∈ d.entries, b.1 < e.1 := fun b hb =>
      (List.pairwise_append.1 sorted).2.2 b hb e List.mem_cons_self
    have next : (d.insert e.1 e.2).entries = d.entries ++ [e] := insertEntry_of_above above
    rw [List.append_cons, ← next] at sorted ⊢
    exact ih sorted

theorem Attributes.ofValue_toValue (attributes : Attributes) : ofValue attributes.toValue = attributes := by
  obtain ⟨entries, sorted⟩ := attributes
  simp only [toValue, ofValue, List.foldl_map, textOf]
  exact Dictionary.ext (entries_foldl_insert sorted)

theorem Attributes.read_toValue (levels : Nat) (attributes : Attributes) (rest : List Char) :
    Value.read levels (attributes.toValue.compact ++ rest) =
      if levels = 0 then .error .recursionLimit else .ok (attributes.toValue, rest) := by
  cases levels with
  | zero => rfl
  | succ levels =>
    have member : ∀ m ∈ attributes.entries.map fun e => (e.1, Value.string e.2),
        ∀ rest, Value.read levels (m.2.compact ++ rest) = .ok (m.2, rest) := by
      intro m hm rest
      obtain ⟨e, -, rfl⟩ := List.mem_map.1 hm
      cases levels <;> exact Value.readOver_string ..
    rw [if_neg (Nat.succ_ne_zero levels), toValue, Value.compact_object_append]
    change (Json.members (Value.read levels) _ >>= fun read => pure (read.map Value.object id)) = _
    rw [members_separated member]
    rfl

end Attributes

namespace Element

section Levels

mutual

/-- How many arrays and objects stand inside each other in the text of the element. -/
def levels : Element → Nat
  | ⟨_, _, attributes, none, _⟩ => 1 + if attributes.isEmpty then 0 else 1
  | ⟨_, _, attributes, some children, _⟩ => 1 + max (if attributes.isEmpty then 0 else 1) (1 + deepest children)

def deepest : List Element → Nat
  | [] => 0
  | e :: rest => max e.levels (deepest rest)

end

theorem deepest_le_iff {es : List Element} {n : Nat} : deepest es ≤ n ↔ ∀ e ∈ es, e.levels ≤ n := by
  induction es with
  | nil => simp [deepest]
  | cons e rest ih => rw [deepest, Nat.max_le, ih, List.forall_mem_cons]

theorem levels_pos (e : Element) : 0 < e.levels := by
  obtain ⟨_, _, _, _ | _, _⟩ := e <;> rw [levels] <;> omega

theorem levels_le_succ_iff {e : Element} {n : Nat} :
    e.levels ≤ n + 1 ↔
      (e.attributes.isEmpty ∨ 0 < n) ∧ ∀ children ∈ e.children, deepest children < n := by
  obtain ⟨_, _, attributes, _ | children, _⟩ := e <;> cases empty : attributes.isEmpty <;>
    simp [levels, empty] <;> omega

end Levels

section Written

theorem toValues_eq_map (es : List Element) : toValues es = es.map toValue := by
  induction es with
  | nil => rfl
  | cons e rest ih => rw [toValues, ih, List.map_cons]

def members (e : Element) : List (String × Value) :=
  (e.kind.toList.map fun kind => ("type", .string kind.name)) ++
    ((if e.name = "" then none else some e.name).toList.map fun name => ("name", .string name)) ++
    ((if e.attributes.isEmpty then none else some e.attributes).toList.map fun attributes =>
      ("attributes", attributes.toValue)) ++
    (e.children.toList.map fun children => ("elements", .array (children.map toValue))) ++
    (e.text.toList.map fun text => ("text", .string text))

theorem toValue_eq_members (e : Element) : e.toValue = .object e.members := by
  obtain ⟨kind, name, attributes, children, text⟩ := e
  unfold toValue
  simp only [members, toValues_eq_map]
  by_cases nameless : name = "" <;> by_cases bare : attributes.isEmpty <;>
    simp only [nameless, bare, if_true, if_false, Bool.false_eq_true] <;>
    cases kind <;> cases children <;> cases text <;> rfl

def draft (e : Element) : Draft where
  kind := e.kind.map some
  name := if e.name = "" then none else some e.name
  attributes := if e.attributes.isEmpty then none else some e.attributes
  children := e.children.map some
  text := e.text.map some

theorem element_draft (e : Element) : e.draft.element = e := by
  obtain ⟨kind, name, attributes, children, text⟩ := e
  have names : (if name = "" then none else some name).getD "" = name := by
    by_cases nameless : name = "" <;> simp [nameless]
  have entries : (if attributes.isEmpty then none else some attributes).getD .empty = attributes := by
    by_cases bare : attributes.isEmpty
    · rw [if_pos bare]
      exact Dictionary.ext (List.isEmpty_iff.1 bare).symm
    · rw [if_neg bare, Option.getD_some]
  simp only [draft, Draft.element, names, entries]
  cases kind <;> cases children <;> cases text <;> rfl

end Written

section Fields

variable {levels : Nat} {child : Option (Reader Element)} {draft : Draft}

theorem choose_kind (kind : NodeKind) : choose kindChoices kind.name = .ok kind := by
  cases kind <;> rfl

theorem fills_kind (isOpen : draft.kind = none) (kind : Option NodeKind) :
    Fills (record levels child) draft (kind.toList.map fun kind => ("type", .string kind.name))
      (.ok { draft with kind := kind.map some }) := by
  have known : (record levels child).fields.find? (·.name = "type") = some (.of "type" false Draft.kind
      (fun draft kind => { draft with kind := some kind }) (readOptional (readChoice kindChoices levels))) := rfl
  have back : ∀ k, kind = some k → ∀ rest, readOptional (readChoice kindChoices levels)
      ((Value.string k.name).compact ++ rest) = (Except.ok (some k)).map (·, rest) := by
    intro k _ rest
    have name : readChoice kindChoices levels (stringText k.name ++ rest) = (Except.ok k).map (·, rest) := by
      rw [readChoice_text, choose_kind]
    exact readOptional_string name
  have filled := Fills.optional known isOpen back
  cases kind with
  | none => simpa [← isOpen] using filled
  | some kind => exact filled

theorem fills_name (isOpen : draft.name = none) (name : String) :
    Fills (record levels child) draft
      ((if name = "" then none else some name).toList.map fun name => ("name", .string name))
      (.ok { draft with name := if name = "" then none else some name }) := by
  have known : (record levels child).fields.find? (·.name = "name") = some (.of "name" false Draft.name
      (fun draft name => { draft with name := some name }) readString) := rfl
  have back : ∀ n, (if name = "" then none else some name) = some n → ∀ rest,
      readString ((Value.string n).compact ++ rest) = (Except.ok n).map (·, rest) :=
    fun n _ rest => readString_text n rest
  have filled := Fills.optional known isOpen back
  by_cases nameless : name = ""
  · obtain ⟨_, _, _, _, _⟩ := draft
    cases isOpen
    simpa [nameless] using filled
  · simpa [nameless, Except.map] using filled

theorem fills_attributes (isOpen : draft.attributes = none) (attributes : Attributes) :
    Fills (record levels child) draft
      ((if attributes.isEmpty then none else some attributes).toList.map fun attributes =>
        ("attributes", attributes.toValue))
      (if attributes.isEmpty ∨ 0 < levels then
        .ok { draft with attributes := if attributes.isEmpty then none else some attributes }
      else .error .recursionLimit) := by
  have known : (record levels child).fields.find? (·.name = "attributes") = some (.of "attributes" false
      Draft.attributes (fun draft attributes => { draft with attributes := some attributes })
      fun text => (Value.read levels text).map fun read => (Attributes.ofValue read.1, read.2)) := rfl
  have back : ∀ a, (if attributes.isEmpty then none else some attributes) = some a → ∀ rest,
      ((Value.read levels (a.toValue.compact ++ rest)).map fun read => (Attributes.ofValue read.1, read.2)) =
        (if 0 < levels then .ok a else .error .recursionLimit : Except ReadError Attributes).map (·, rest) := by
    intro a _ rest
    rw [Attributes.read_toValue]
    by_cases none : levels = 0
    · simp [none, Except.map]
    · simp [none, Nat.pos_of_ne_zero none, Except.map, Attributes.ofValue_toValue]
  have filled := Fills.optional known isOpen back
  by_cases bare : attributes.isEmpty
  · obtain ⟨_, _, _, _, _⟩ := draft
    cases isOpen
    simpa [bare] using filled
  · by_cases room : 0 < levels
    · simpa [bare, room, Except.map] using filled
    · simpa [bare, room, Except.map] using filled

theorem fills_children (isOpen : draft.children = none) {children : Option (List Element)}
    (back : ∀ es ∈ children, ∀ rest, readList child ((Value.array (es.map toValue)).compact ++ rest) =
      if deepest es < levels then .ok (es, rest) else .error .recursionLimit) :
    Fills (record levels child) draft
      (children.toList.map fun children => ("elements", .array (children.map toValue)))
      (if ∀ es ∈ children, deepest es < levels then .ok { draft with children := children.map some }
      else .error .recursionLimit) := by
  have known : (record levels child).fields.find? (·.name = "elements") = some (.of "elements" false Draft.children
      (fun draft children => { draft with children := some children }) (readOptional (readList child))) := rfl
  have optional : ∀ es, children = some es → ∀ rest, readOptional (readList child)
      ((Value.array (es.map toValue)).compact ++ rest) =
        (if deepest es < levels then .ok (some es) else .error .recursionLimit : Except ReadError _).map (·, rest) := by
    intro es found rest
    have list := back es found rest
    rw [Value.compact_array_append] at list ⊢
    rw [readOptional_cons _ rfl (by decide), list]
    by_cases fits : deepest es < levels <;> simp [fits, Except.map]
  have filled := Fills.optional known isOpen optional
  cases children with
  | none =>
    obtain ⟨_, _, _, _, _⟩ := draft
    cases isOpen
    simpa using filled
  | some es => by_cases fits : deepest es < levels <;> simpa [fits, Except.map] using filled

theorem fills_text (isOpen : draft.text = none) (text : Option String) :
    Fills (record levels child) draft (text.toList.map fun text => ("text", .string text))
      (.ok { draft with text := text.map some }) := by
  have known : (record levels child).fields.find? (·.name = "text") = some (.of "text" false Draft.text
      (fun draft text => { draft with text := some text }) (readOptional readString)) := rfl
  have back : ∀ t, text = some t → ∀ rest, readOptional readString
      ((Value.string t).compact ++ rest) = (Except.ok (some t)).map (·, rest) := by
    intro t _ rest
    have body : readString (stringText t ++ rest) = (Except.ok t).map (·, rest) := readString_text t rest
    exact readOptional_string body
  have filled := Fills.optional known isOpen back
  cases text with
  | none => simpa [← isOpen] using filled
  | some text => exact filled

theorem fills_members {e : Element} (back : ∀ es ∈ e.children, ∀ rest,
    readList child ((Value.array (es.map toValue)).compact ++ rest) =
      if deepest es < levels then .ok (es, rest) else .error .recursionLimit) :
    Fills (record levels child) {} e.members
      (if e.levels ≤ levels + 1 then .ok e.draft else .error .recursionLimit) := by
  have kind : Fills (record levels child) {} _ _ := fills_kind rfl e.kind
  have name := kind.append (fills_name rfl e.name)
  have attributes := name.append (fills_attributes rfl e.attributes)
  by_cases entries : e.attributes.isEmpty ∨ 0 < levels
  · rw [if_pos entries] at attributes
    have children := attributes.append (fills_children rfl back)
    by_cases nodes : ∀ es ∈ e.children, deepest es < levels
    · rw [if_pos nodes] at children
      rw [if_pos (levels_le_succ_iff.2 ⟨entries, nodes⟩)]
      exact children.append (fills_text rfl e.text)
    · rw [if_neg nodes] at children
      rw [if_neg fun low => nodes (levels_le_succ_iff.1 low).2]
      exact children.append_error _
  · rw [if_neg entries] at attributes
    rw [if_neg fun low => entries (levels_le_succ_iff.1 low).1]
    exact (attributes.append_error _).append_error _

end Fields

section ReadBack

theorem mapM_levels (es : List Element) (n : Nat) :
    (es.mapM fun e => if e.levels ≤ n then .ok e else .error .recursionLimit : Except ReadError (List Element)) =
      if deepest es ≤ n then .ok es else .error .recursionLimit := by
  induction es with
  | nil => rfl
  | cons e rest ih =>
    rw [List.mapM_cons, ih]
    simp only [deepest, Nat.max_le]
    by_cases head : e.levels ≤ n
    · by_cases tail : deepest rest ≤ n
      · rw [if_pos head, if_pos tail, if_pos ⟨head, tail⟩]
        rfl
      · have deeper : ¬(e.levels ≤ n ∧ deepest rest ≤ n) := fun both => tail both.2
        rw [if_pos head, if_neg tail, if_neg deeper]
        rfl
    · have deeper : ¬(e.levels ≤ n ∧ deepest rest ≤ n) := fun both => head both.1
      rw [if_neg head, if_neg deeper]
      rfl

theorem read_members {levels : Nat} {child : Option (Reader Element)} {e : Element} (back : ∀ es ∈ e.children, ∀ rest,
    readList child ((Value.array (es.map toValue)).compact ++ rest) =
      if deepest es < levels then .ok (es, rest) else .error .recursionLimit) (rest : List Char) :
    Record.readOver "Element" (some (record levels child)) (e.toValue.compact ++ rest) =
      if e.levels ≤ levels + 1 then .ok (e, rest) else .error .recursionLimit := by
  rw [toValue_eq_members, Value.compact_object_append]
  refine ((fills_members back).readObject rest).trans ?_
  split
  · exact congrArg (fun e => Except.ok (e, rest)) (element_draft e)
  · rfl

theorem read_compact (n : Nat) (e : Element) (rest : List Char) :
    read n (e.toValue.compact ++ rest) = if e.levels ≤ n then .ok (e, rest) else .error .recursionLimit := by
  induction n using read.induct generalizing e rest with
  | case1 =>
    rw [if_neg (Nat.not_le_of_lt e.levels_pos), toValue_eq_members, Value.compact_object_append]
    rfl
  | case2 =>
    refine read_members (fun es _ rest => ?_) rest
    rw [Value.compact_array_append]
    rfl
  | case3 n ih =>
    refine read_members (fun es _ rest => ?_) rest
    have opens : ∀ e ∈ es, ∃ c text, e.toValue.compact = c :: text ∧ isSpace c = false ∧ c ≠ ']' := by
      intro e _
      rw [toValue_eq_members, Value.compact]
      exact ⟨'{', _, rfl, rfl, by decide⟩
    have each : ∀ e ∈ es, ∀ rest, read n (e.toValue.compact ++ rest) =
        (if e.levels ≤ n then .ok e else .error .recursionLimit : Except ReadError Element).map (·, rest) := by
      intro e _ rest
      rw [ih]
      split <;> rfl
    rw [Value.compact_array_append, List.map_map]
    refine (items_separated opens each rest).trans ?_
    -- One level goes for the element and one for the list, so the children have two fewer than the element.
    rw [mapM_levels]
    simp only [Nat.lt_succ_iff]
    split <;> rfl

end ReadBack

section Limit

theorem isEmpty_of_read_zero {text rest : List Char} {v : Value} (h : Value.read 0 text = .ok (v, rest)) :
    (Attributes.ofValue v).isEmpty := by
  obtain ⟨⟨head, later⟩, -, h⟩ := bind_eq_ok_iff.1 h
  cases head <;> cases h <;> rfl

theorem record_keeps_levels {levels : Nat} {child : Option (Reader Element)}
    (each : ∀ reader ∈ child, ∃ n, levels = n + 1 ∧ ∀ text e rest, reader text = .ok (e, rest) → e.levels ≤ n) :
    (record levels child).Keeps fun draft => draft.element.levels ≤ levels + 1 where
  start := levels_le_succ_iff.2 ⟨.inl rfl, nofun⟩
  field := by
    intro field known draft text next rest kept read
    obtain ⟨entries, nodes⟩ := levels_le_succ_iff.1 kept
    simp only [record, List.mem_cons, List.not_mem_nil, or_false] at known
    -- Of the five fields only the attributes and the children take levels.
    obtain rfl | rfl | rfl | rfl | rfl := known <;> obtain ⟨x, value, rfl⟩ := Field.of_read_eq_ok read
    case inr.inr.inl =>
      obtain ⟨⟨v, _⟩, any, same⟩ := map_eq_ok_iff.1 value
      cases same
      refine levels_le_succ_iff.2 ⟨?_, nodes⟩
      cases levels with
      | zero => exact .inl (isEmpty_of_read_zero any)
      | succ n => exact .inr n.succ_pos
    case inr.inr.inr.inl =>
      refine levels_le_succ_iff.2 ⟨entries, fun es found => ?_⟩
      obtain rfl : x = some es := found
      obtain ⟨reader, later, has, list⟩ := readList_eq_ok (readOptional_eq_ok value)
      obtain ⟨n, rfl, low⟩ := each reader has
      exact Nat.lt_succ_of_le (deepest_le_iff.2 (items_all low list))
    all_goals exact levels_le_succ_iff.2 ⟨entries, nodes⟩

theorem levels_of_read {n : Nat} {text rest : List Char} {e : Element} (h : read n text = .ok (e, rest)) :
    e.levels ≤ n := by
  induction n using read.induct generalizing e text rest with
  | case1 => exact absurd h Record.readOver_none
  | case2 =>
    have keeps : (record 0 none).Keeps fun draft => draft.element.levels ≤ 1 := record_keeps_levels (by simp)
    obtain ⟨draft, kept, finished⟩ := keeps.readOver h
    cases finished
    exact kept
  | case3 n ih =>
    have each : ∀ reader ∈ some (read n), ∃ m, n + 1 = m + 1 ∧
        ∀ text e rest, reader text = .ok (e, rest) → e.levels ≤ m := by
      intro reader same
      cases same
      exact ⟨n, rfl, fun _ _ _ => ih⟩
    obtain ⟨draft, kept, finished⟩ := (record_keeps_levels each).readOver h
    cases finished
    exact kept

end Limit

section Parse

def line (e : Element) : String :=
  String.ofList e.toValue.compact

theorem parse_line (e : Element) :
    parse e.line = if e.levels ≤ maxLevels then .ok e else .error .recursionLimit := by
  have whole := read_compact maxLevels e []
  rw [List.append_nil] at whole
  rw [parse, readAll, line, String.toList_ofList, whole]
  split <;> rfl

theorem levels_of_parse {text : String} {e : Element} (h : parse text = .ok e) : e.levels ≤ maxLevels := by
  obtain ⟨⟨e', rest⟩, taken, h⟩ := bind_eq_ok_iff.1 h
  dsimp only at h
  by_cases ended : (skipSpace rest).isEmpty
  · rw [if_pos ended] at h
    cases h
    exact levels_of_read taken
  · rw [if_neg ended] at h
    cases h

/-- Reading undoes writing wherever the levels of the element are allowed, and fails for its depth elsewhere. What
comes from a text never has more levels, so that it is always read from its own text again. -/
theorem parse_line_parse :
    (∀ e : Element, parse e.line = if e.levels ≤ 127 then .ok e else .error .recursionLimit) ∧
      ∀ text e, parse text = .ok e → e.levels ≤ 127 ∧ parse e.line = .ok e := by
  refine ⟨parse_line, fun text e read => ?_⟩
  have low := levels_of_parse read
  exact ⟨low, (parse_line e).trans (if_pos low)⟩

theorem parse_line_parse_paragraph :
    parse "\x7b\"elements\":[\x7b\"name\":\"p\"\x7d]\x7d" = .ok (document [{ name := "p" }]) ∧
      (document [{ name := "p" }]).levels ≤ 127 ∧
      parse (document [{ name := "p" }]).line = .ok (document [{ name := "p" }]) := by
  have read : parse (document [{ name := "p" }]).line = .ok (document [{ name := "p" }]) :=
    (parse_line_parse.1 _).trans (if_pos (by decide))
  exact ⟨read, parse_line_parse.2 _ _ read⟩

end Parse

end Element

end SpeechMarkup
