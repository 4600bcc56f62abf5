import Mathlib.Data.List.Nodup
import SpeechMarkup.Proofs.ByteOrder
import SpeechMarkup.Proofs.Reread
import SpeechMarkup.Report.Format

/-! Values up to the order of members. Two values tell the same if they differ in nothing but the places of the members
of their objects. Putting members in order keeps what a value tells, unless an object in it has two members of one
name, of which only the last is left. No value that is written for an element or a report has such an object. -/

namespace SpeechMarkup

open Json

section Entries

variable {α : Type}

theorem insertEntry_perm {key : String} {value : α} {entries : List (String × α)}
    (new : key ∉ entries.map Prod.fst) : (insertEntry key value entries).Perm ((key, value) :: entries) := by
  induction entries with
  | nil => exact .refl _
  | cons head rest ih =>
    obtain ⟨k, v⟩ := head
    obtain ⟨other, newRest⟩ : key ≠ k ∧ key ∉ rest.map Prod.fst := by simpa using new
    rw [insertEntry, if_neg other]
    split
    · exact .refl _
    · exact ((ih newRest).cons _).trans (.swap ..)

end Entries

namespace Json.Value

inductive Distinct : Value → Prop where
  | null : Distinct .null
  | bool (b : Bool) : Distinct (.bool b)
  | number (n : Number) : Distinct (.number n)
  | string (s : String) : Distinct (.string s)
  | array {items : List Value} (each : ∀ x ∈ items, Distinct x) : Distinct (.array items)
  | object {members : List (String × Value)} (names : (members.map Prod.fst).Nodup)
      (each : ∀ m ∈ members, Distinct m.2) : Distinct (.object members)

/-- The values tell the same: scalars are equal, items tell the same one by one, and members tell the same name by
name, where a name stands for one member only. -/
inductive Same : Value → Value → Prop where
  | null : Same .null .null
  | bool (b : Bool) : Same (.bool b) (.bool b)
  | number (n : Number) : Same (.number n) (.number n)
  | string (s : String) : Same (.string s) (.string s)
  | array {xs ys : List Value} (length : xs.length = ys.length)
      (each : ∀ (i : Nat) x y, xs[i]? = some x → ys[i]? = some y → Same x y) : Same (.array xs) (.array ys)
  | object {ms ns : List (String × Value)} (distinct : (ms.map Prod.fst).Nodup)
      (names : (ms.map Prod.fst).Perm (ns.map Prod.fst))
      (each : ∀ name x y, (name, x) ∈ ms → (name, y) ∈ ns → Same x y) : Same (.object ms) (.object ns)

section Sorted

theorem sortedItems_eq_map (items : List Value) : sortedItems items = items.map sorted := by
  induction items with
  | nil => rfl
  | cons x rest ih => rw [sortedItems, ih, List.map_cons]

theorem sortedMembers_perm {before members : List (String × Value)}
    (distinct : ((before ++ members).map Prod.fst).Nodup) :
    (sortedMembers before members).Perm (before ++ members.map fun m => (m.1, m.2.sorted)) := by
  induction members generalizing before with
  | nil => simp [sortedMembers]
  | cons m rest ih =>
    obtain ⟨name, x⟩ := m
    have moved : ((name, x.sorted) :: before ++ rest).map Prod.fst |>.Perm
        ((before ++ (name, x) :: rest).map Prod.fst) := by
      simpa using List.perm_middle.symm
    have distinct' := moved.nodup_iff.2 distinct
    have new : name ∉ before.map Prod.fst := fun h =>
      (List.nodup_cons.1 distinct').1 (List.map_append ▸ List.mem_append_left _ h)
    have placed : (insertEntry name x.sorted before).Perm _ := insertEntry_perm new
    have later := ih (((placed.append_right rest).map Prod.fst).nodup_iff.2 distinct')
    rw [sortedMembers, List.map_cons]
    exact later.trans ((placed.append_right _).trans List.perm_middle.symm)

/-- Where no names are repeated, putting the members in order keeps what a value tells. -/
theorem Distinct.same_sorted {v : Value} (distinct : v.Distinct) : v.Same v.sorted := by
  induction distinct with
  | null => exact .null
  | bool b => exact .bool b
  | number n => exact .number n
  | string s => exact .string s
  | @array items _ ih =>
    rw [sorted, sortedItems_eq_map]
    refine .array (List.length_map _).symm fun i x y hx hy => ?_
    rw [List.getElem?_map, hx] at hy
    cases hy
    exact ih x (List.mem_of_getElem? hx)
  | @object members names _ ih =>
    have perm : (sortedMembers [] members).Perm _ := sortedMembers_perm names
    rw [sorted]
    refine .object names ?_ fun name x y hx hy => ?_
    · simpa [Function.comp_def] using (perm.map Prod.fst).symm
    · obtain ⟨m, hm, same⟩ := List.mem_map.1 (perm.mem_iff.1 hy)
      -- The names are distinct, so the member that was put in its place is this one.
      have : (name, x) = m := List.inj_on_of_nodup_map names hx hm (congrArg Prod.fst same).symm
      subst this
      cases same
      exact ih (name, x) hx

theorem keySorted_sortedMembers {before : List (String × Value)} (sorted : KeySorted before)
    (members : List (String × Value)) : KeySorted (sortedMembers before members) := by
  induction members generalizing before with
  | nil => rwa [sortedMembers]
  | cons m rest ih =>
    obtain ⟨name, x⟩ := m
    rw [sortedMembers]
    exact ih (sorted.insertEntry name x.sorted)

/-- Values that differ in the order of members only have one sorted form. -/
theorem Same.sorted_eq {v w : Value} (same : v.Same w) : v.sorted = w.sorted := by
  induction same with
  | null => rfl
  | bool b => rfl
  | number n => rfl
  | string s => rfl
  | @array xs ys length _ ih =>
    rw [sorted, sorted, sortedItems_eq_map, sortedItems_eq_map]
    refine congrArg Value.array (List.ext_getElem? fun i => ?_)
    rw [List.getElem?_map, List.getElem?_map]
    by_cases inside : i < xs.length
    · have inside' : i < ys.length := length ▸ inside
      rw [List.getElem?_eq_getElem inside, List.getElem?_eq_getElem inside', Option.map_some, Option.map_some]
      exact congrArg some (ih i _ _ (List.getElem?_eq_getElem inside) (List.getElem?_eq_getElem inside'))
    · rw [List.getElem?_eq_none (by omega), List.getElem?_eq_none (by omega)]
  | @object ms ns distinct names _ ih =>
    have distinct' := names.nodup_iff.1 distinct
    have left : (sortedMembers [] ms).Perm _ := sortedMembers_perm distinct
    have right : (sortedMembers [] ns).Perm _ := sortedMembers_perm distinct'
    rw [sorted, sorted]
    refine congrArg Value.object
      (KeySorted.eq_of_perm (keySorted_sortedMembers .nil ms) (keySorted_sortedMembers .nil ns) ?_)
    refine left.trans (.trans ?_ right.symm)
    have named : ((ms.map fun m => (m.1, m.2.sorted)).map Prod.fst).Nodup := by
      simpa [Function.comp_def] using distinct
    refine (named.of_map.subperm fun e he => ?_).perm_of_length_le (by simpa using names.symm.length_eq.le)
    obtain ⟨⟨name, x⟩, hx, rfl⟩ := List.mem_map.1 he
    obtain ⟨⟨name', y⟩, hy, same⟩ := List.mem_map.1 (names.mem_iff.1 (List.mem_map_of_mem hx))
    cases same
    exact List.mem_map.2 ⟨(name, y), hy, by rw [ih name x y hx hy]⟩

end Sorted

end Json.Value

section Written

open Json.Value

theorem Attributes.distinct_toValue (attributes : Attributes) : attributes.toValue.Distinct := by
  refine .object ?_ fun m hm => ?_
  · rw [List.map_map]
    exact attributes.sorted.nodup
  · obtain ⟨e, -, rfl⟩ := List.mem_map.1 hm
    exact .string e.2

theorem Element.members_sublist (e : Element) : (e.members.map Prod.fst).Sublist fieldNames := by
  have one {α : Type} (x : Option α) (name : String) (write : α → Value) :
      ((x.toList.map fun v => (name, write v)).map Prod.fst).Sublist [name] := by
    cases x <;> simp
  simp only [members, List.map_append]
  exact (((one ..).append (one ..)).append (one ..)).append (one ..) |>.append (one ..)

theorem Element.distinct_toValue (e : Element) : e.toValue.Distinct := by
  rw [toValue_eq_members]
  refine .object (e.members_sublist.nodup (by decide)) fun m hm => ?_
  simp only [members, List.mem_append, List.mem_map, Option.mem_toList] at hm
  obtain (((⟨_, -, rfl⟩ | ⟨_, -, rfl⟩) | ⟨attributes, -, rfl⟩) | ⟨children, has, rfl⟩) | ⟨_, -, rfl⟩ := hm
  · exact .string _
  · exact .string _
  · exact attributes.distinct_toValue
  · refine .array fun x hx => ?_
    obtain ⟨child, hchild, rfl⟩ := List.mem_map.1 hx
    exact child.distinct_toValue
  · exact .string _
termination_by e.levels
decreasing_by
  have inside := deepest_lt_levels has
  have := deepest_le_iff.1 (Nat.le_refl _) child hchild
  omega

theorem Violation.distinct_toValue (v : Violation) : v.toValue.Distinct := by
  obtain ⟨tag, attr, value⟩ := v
  cases attr <;> cases value <;> exact .object (by simp) (by simp [Distinct.string])

theorem Report.distinct_toValue (report : Report) : report.toValue.Distinct := by
  refine .object (by simp) fun m hm => ?_
  simp only [List.mem_cons, List.not_mem_nil, or_false] at hm
  obtain rfl | rfl | rfl | rfl := hm
  · exact .bool _
  · refine .array fun x hx => ?_
    obtain ⟨v, -, rfl⟩ := List.mem_map.1 hx
    exact v.distinct_toValue
  · exact .string _
  · exact .string _

end Written

end SpeechMarkup
