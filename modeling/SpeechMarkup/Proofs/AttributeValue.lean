import SpeechMarkup.Proofs.ReportText

/-! The attributes in a value of any form: none in what is no object, and in an object what the last member with each
name shows, whatever else has the name. Attributes are read back from every text that is written for them. -/

namespace SpeechMarkup

open Json

section Members

variable {key name text : String} {members before behind : List (String × Value)} {v old : Value}

def IsLast (key : String) (members : List (String × Value)) (v : Value) : Prop :=
  ∃ before behind, members = before ++ (key, v) :: behind ∧ ∀ m ∈ behind, m.1 ≠ key

theorem lookup_reverse_eq_some_iff : members.reverse.lookup key = some v ↔ IsLast key members v := by
  rw [List.lookup_eq_some_iff]
  constructor
  · rintro ⟨later, earlier, same, others⟩
    refine ⟨earlier.reverse, later.reverse, ?_, fun m mem => ?_⟩
    · rw [← members.reverse_reverse, same]
      simp
    · exact Ne.symm (bne_iff_ne.1 (others m (List.mem_reverse.1 mem)))
  · rintro ⟨before, behind, rfl, others⟩
    refine ⟨behind.reverse, before.reverse, by simp, fun m mem => ?_⟩
    exact bne_iff_ne.2 (others m (List.mem_reverse.1 mem)).symm

/-- What a value shows as an attribute: a string its content, a number its text, and a boolean its name. -/
inductive Shown : Value → String → Prop where
  | string (s : String) : Shown (.string s) s
  | number {n : Number} {digits : List Char} (canonical : n.Canonical digits) :
      Shown (.number n) (String.ofList digits)
  | true : Shown (.bool true) "true"
  | false : Shown (.bool false) "false"

namespace Attributes

theorem textOf_eq_some_iff : textOf v = some text ↔ Shown v text := by
  constructor
  · intro h
    cases v with
    | string => cases h; exact .string _
    | number n => cases h; exact .number n.canonical_text
    | bool b => cases b <;> cases h <;> constructor
    | null | array | object => cases h
  · intro shown
    cases shown with
    | string | true | false => rfl
    | @number n _ canonical => rw [textOf, canonical.unique n.canonical_text]

theorem ofValue_concat (members : List (String × Value)) (name : String) (v : Value) :
    ofValue (.object (members ++ [(name, v)])) =
      match textOf v with
      | some text => (ofValue (.object members)).insert name text
      | none => (ofValue (.object members)).erase name := by
  rw [ofValue, List.foldl_append]
  rfl

/-- Each key has what its last member shows: values that show nothing count among the members, and only then are left
out. -/
theorem get?_ofValue_object (members : List (String × Value)) (key : String) :
    (ofValue (.object members)).get? key = (members.reverse.lookup key).bind textOf := by
  induction members using List.reverseRecOn with
  | nil => rfl
  | append_singleton members m ih =>
    obtain ⟨name, v⟩ := m
    rw [ofValue_concat, List.reverse_concat, List.lookup_cons]
    by_cases same : key = name
    · cases shown : textOf v <;> simp [same, shown, Dictionary.get?_insert, Dictionary.get?_erase]
    · cases shown : textOf v <;>
        simp [same, beq_false_of_ne, ih, Dictionary.get?_insert, Dictionary.get?_erase]

/-- What is taken out of a value as attributes. What is no object holds none, and in an object a key has what its last
member shows. An earlier member with the name of a later one leaves no trace; a last member that shows nothing leaves
none either, but the earlier ones do not come back. -/
structure TakenFrom (v : Value) (attributes : Attributes) : Prop where
  other : (∀ members, v ≠ .object members) → attributes = .empty
  shown : ∀ members, v = .object members → ∀ key text,
    attributes.get? key = some text ↔ ∃ last, IsLast key members last ∧ Shown last text
  hidden : ∀ before key old behind, v = .object (before ++ (key, old) :: behind) → (∃ m ∈ behind, m.1 = key) →
    attributes = ofValue (.object (before ++ behind))
  dropped : ∀ before key last behind, v = .object (before ++ (key, last) :: behind) → (∀ m ∈ behind, m.1 ≠ key) →
    (∀ text, ¬Shown last text) → attributes = ofValue (.object (before.filter (·.1 ≠ key) ++ behind))

theorem ofValue_hidden (later : ∃ m ∈ behind, m.1 = key) :
    ofValue (.object (before ++ (key, old) :: behind)) = ofValue (.object (before ++ behind)) := by
  refine Dictionary.ext_get? fun k => ?_
  simp only [get?_ofValue_object, List.reverse_append, List.reverse_cons, List.append_assoc, List.lookup_append]
  by_cases same : k = key
  -- The search from behind ends before it comes to the earlier member.
  · have seen : (behind.reverse.lookup key).isSome := by
      obtain ⟨⟨_, v⟩, mem, rfl⟩ := later
      rw [List.lookup_isSome_iff]
      exact ⟨_, List.mem_reverse.2 mem, beq_self_eq_true _⟩
    obtain ⟨v, found⟩ := Option.isSome_iff_exists.1 seen
    simp [same, found]
  · simp [List.lookup_cons, beq_false_of_ne same]

theorem lookup_filter_of_ne {k : String} (other : k ≠ key) (members : List (String × Value)) :
    (members.filter (·.1 ≠ key)).lookup k = members.lookup k := by
  induction members with
  | nil => rfl
  | cons m members ih =>
    obtain ⟨name, v⟩ := m
    rw [List.filter_cons, List.lookup_cons, ← ih]
    by_cases same : name = key
    · simp [same, beq_false_of_ne other]
    · simp [same, List.lookup_cons]

theorem ofValue_dropped (last : ∀ m ∈ behind, m.1 ≠ key) (nothing : ∀ text, ¬Shown v text) :
    ofValue (.object (before ++ (key, v) :: behind)) =
      ofValue (.object (before.filter (·.1 ≠ key) ++ behind)) := by
  have unseen {members : List (String × Value)} (others : ∀ m ∈ members, m.1 ≠ key) :
      members.reverse.lookup key = none := by
    rw [List.lookup_eq_none_iff]
    exact fun m mem => bne_iff_ne.2 (others m (List.mem_reverse.1 mem)).symm
  refine Dictionary.ext_get? fun k => ?_
  simp only [get?_ofValue_object, List.reverse_append, List.reverse_cons, List.append_assoc, List.lookup_append]
  by_cases same : k = key
  · have shows : textOf v = none := Option.eq_none_iff_forall_ne_some.2 fun text shown =>
      nothing text (textOf_eq_some_iff.1 shown)
    have others : ∀ m ∈ before.filter (·.1 ≠ key), m.1 ≠ key := fun m mem => of_decide_eq_true (List.mem_filter.1 mem).2
    rw [same, unseen last, unseen others]
    simp [shows]
  · rw [← List.filter_reverse, lookup_filter_of_ne same]
    simp [List.lookup_cons, beq_false_of_ne same]

theorem takenFrom_ofValue (v : Value) : TakenFrom v (ofValue v) where
  other := by
    intro other
    cases v with
    | object members => exact absurd rfl (other members)
    | _ => rfl
  shown := by
    rintro members rfl key text
    simp only [get?_ofValue_object, Option.bind_eq_some_iff, lookup_reverse_eq_some_iff, textOf_eq_some_iff]
  hidden := by
    rintro before key old behind rfl later
    exact ofValue_hidden later
  dropped := by
    rintro before key last behind rfl others nothing
    exact ofValue_dropped others nothing

end Attributes

end Members

section Written

variable {key : String} {members ns : List (String × Value)} {v w : Value} {levels : Nat} {attributes : Attributes}

theorem isLast_iff_mem (names : (members.map Prod.fst).Nodup) : IsLast key members v ↔ (key, v) ∈ members := by
  constructor
  · rintro ⟨before, behind, rfl, -⟩
    simp
  · intro mem
    obtain ⟨before, behind, rfl⟩ := List.append_of_mem mem
    refine ⟨before, behind, rfl, fun m later same => ?_⟩
    rw [List.map_append, List.map_cons] at names
    exact (List.nodup_cons.1 (List.nodup_append.1 names).2.1).1 (List.mem_map.2 ⟨m, later, same⟩)

namespace Attributes

theorem exists_members_of_same (same : attributes.toValue.Same w) :
    ∃ ns, w = .object ns ∧ (attributes.entries.map fun e => (e.1, Value.string e.2)).Perm ns := by
  obtain ⟨ns, rfl⟩ : ∃ ns, w = .object ns := by
    cases same
    exact ⟨_, rfl⟩
  obtain ⟨ns', perm, each⟩ := exists_perm_of_same same
  have strings : ∀ m ∈ attributes.entries.map fun e => (e.1, Value.string e.2), ∃ s, m.2 = .string s := by
    simp only [List.forall_mem_map]
    exact fun e _ => ⟨e.2, rfl⟩
  obtain rfl := eq_of_sameMember strings each
  exact ⟨ns, rfl, perm.symm⟩

theorem ofValue_of_same (same : attributes.toValue.Same w) : ofValue w = attributes := by
  obtain ⟨ns, rfl, perm⟩ := exists_members_of_same same
  have names : (ns.map Prod.fst).Nodup := by
    rw [← (perm.map Prod.fst).nodup_iff, List.map_map]
    exact attributes.sorted.nodup
  refine Dictionary.ext_get? fun key => Option.ext fun text => ?_
  rw [(takenFrom_ofValue _).shown ns rfl, Dictionary.get?_eq_some_iff]
  simp only [isLast_iff_mem names, ← perm.mem_iff, List.mem_map]
  constructor
  · rintro ⟨_, ⟨⟨_, text⟩, mem, ⟨⟩⟩, ⟨⟩⟩
    exact mem
  · exact fun mem => ⟨.string text, ⟨(key, text), mem, rfl⟩, .string text⟩

theorem takes_value_object {xs : List (String × Value)} {ms : List (Name × Tree)}
    (each : List.Forall₂ (fun m x => m.1.Decodes x.1 ∧ Takes (Value.read levels) m.2 x.2) ms xs) :
    Takes (Value.read (levels + 1)) (.object ms) (.object xs) := by
  intro text rest woven _
  obtain ⟨inside, head, woven⟩ := Head.read_object woven
  rw [Value.read, Value.readOver, head, ok_bind]
  simp only [members_of_woven each woven, ok_bind]
  rfl

theorem takes_value_scalar {t : Tree} (takes : Takes Head.read t v.head) (array : v.head ≠ .array)
    (object : v.head ≠ .object) : Takes (Value.read levels) t v := by
  intro text rest woven follows
  have head := takes text rest woven follows
  cases v with
  | array => exact absurd rfl array
  | object => exact absurd rfl object
  | null | bool | number | string =>
    simp only [Value.head] at head
    cases levels <;> simp only [Value.read, Value.readOver, head] <;> rfl

theorem takes_value_string (s : String) : Takes (Value.read levels) (Value.string s).tree (.string s) :=
  takes_value_scalar (takes_string s) (by simp [Value.head]) (by simp [Value.head])

theorem takes_read (same : attributes.toValue.Same w) : Takes (Value.read (levels + 1)) w.tree w := by
  obtain ⟨ns, rfl, perm⟩ := exists_members_of_same same
  rw [Value.tree, Value.memberTrees_eq_map]
  refine takes_value_object (List.forall₂_map_left_iff.2 (List.forall₂_same.2 fun m mem => ?_))
  obtain ⟨e, -, rfl⟩ := List.mem_map.1 (perm.mem_iff.2 mem)
  exact ⟨Name.decodes_ofString e.1, takes_value_string e.2⟩

end Attributes

end Written

end SpeechMarkup
