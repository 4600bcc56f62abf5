/-! Dictionaries: finite maps from strings, kept as entries in increasing order of their keys. Keys compare code
point by code point, which is also the order of their bytes in UTF-8. Two dictionaries with the same entries are
equal, so a dictionary is written in one way only. -/

namespace SpeechMarkup

/-- Puts an entry in its place among others; an entry with the same key gives way. -/
def insertEntry {α : Type} (key : String) (value : α) : List (String × α) → List (String × α)
  | [] => [(key, value)]
  | (k, v) :: rest =>
    if key < k then (key, value) :: (k, v) :: rest
    else if key = k then (key, value) :: rest
    else (k, v) :: insertEntry key value rest

def KeySorted {α : Type} (entries : List (String × α)) : Prop :=
  entries.Pairwise fun a b => a.1 < b.1

theorem mem_insertEntry {α : Type} {key : String} {value : α} {e : String × α} {entries : List (String × α)} :
    e ∈ insertEntry key value entries → e = (key, value) ∨ e ∈ entries := by
  induction entries with
  | nil => simp [insertEntry]
  | cons head rest ih =>
    rw [insertEntry]
    split
    · simp
    · split
      · rintro (_ | ⟨_, h⟩)
        · exact .inl rfl
        · exact .inr (List.mem_cons_of_mem _ h)
      · rintro (_ | ⟨_, h⟩)
        · exact .inr List.mem_cons_self
        · exact (ih h).imp_right (List.mem_cons_of_mem _)

theorem KeySorted.insertEntry {α : Type} {entries : List (String × α)} (h : KeySorted entries) (key : String)
    (value : α) : KeySorted (insertEntry key value entries) := by
  induction entries with
  | nil => simp [KeySorted, SpeechMarkup.insertEntry]
  | cons head rest ih =>
    obtain ⟨above, sorted⟩ := List.pairwise_cons.1 h
    rw [SpeechMarkup.insertEntry]
    split
    case isTrue below =>
      refine List.pairwise_cons.2 ⟨fun e he => ?_, h⟩
      rcases List.mem_cons.1 he with rfl | he
      · exact below
      · exact String.lt_trans below (above e he)
    case isFalse notBelow =>
      split
      case isTrue same => exact List.pairwise_cons.2 ⟨fun e he => same ▸ above e he, sorted⟩
      case isFalse other =>
        refine List.pairwise_cons.2 ⟨fun e he => ?_, ih sorted⟩
        rcases mem_insertEntry he with rfl | he
        · exact Std.lt_of_le_of_ne (String.not_lt.1 notBelow) (Ne.symm other)
        · exact above e he

theorem lookup_insertEntry {α : Type} (key : String) (value : α) (entries : List (String × α)) (k : String) :
    (insertEntry key value entries).lookup k = if k = key then some value else entries.lookup k := by
  fun_induction insertEntry key value entries with
  | case1 => by_cases h : k = key <;> simp [List.lookup_cons, h, beq_false_of_ne]
  | case2 k' v rest _ => by_cases h : k = key <;> simp [List.lookup_cons, h, beq_false_of_ne]
  | case3 v rest _ => by_cases h : k = key <;> simp [List.lookup_cons, h, beq_false_of_ne]
  | case4 k' v rest _ other ih =>
    by_cases h : k = k'
    · subst h
      simp [Ne.symm other]
    · simp [List.lookup_cons, h, beq_false_of_ne, ih]

theorem KeySorted.lookup_eq_some_iff {α : Type} {entries : List (String × α)} (h : KeySorted entries) {key : String}
    {value : α} : entries.lookup key = some value ↔ (key, value) ∈ entries := by
  induction entries with
  | nil => simp
  | cons head rest ih =>
    obtain ⟨k, v⟩ := head
    obtain ⟨above, sorted⟩ := List.pairwise_cons.1 h
    by_cases same : key = k
    · subst same
      have : (key, value) ∉ rest := fun hm => String.lt_irrefl key (above (key, value) hm)
      simp [this, eq_comm]
    · simp [List.lookup_cons, same, beq_false_of_ne, ih sorted]

structure Dictionary (α : Type) where
  entries : List (String × α)
  sorted : KeySorted entries

namespace Dictionary

variable {α : Type}

@[ext] theorem ext {d e : Dictionary α} (h : d.entries = e.entries) : d = e := by
  cases d; cases e; cases h; rfl

instance [DecidableEq α] : DecidableEq (Dictionary α) := fun d e =>
  if h : d.entries = e.entries then isTrue (ext h) else isFalse fun he => h (congrArg entries he)

def empty : Dictionary α := ⟨[], List.Pairwise.nil⟩

def isEmpty (d : Dictionary α) : Bool :=
  d.entries.isEmpty

def get? (d : Dictionary α) (key : String) : Option α :=
  d.entries.lookup key

theorem get?_eq_some_iff {d : Dictionary α} {key : String} {value : α} :
    d.get? key = some value ↔ (key, value) ∈ d.entries :=
  d.sorted.lookup_eq_some_iff

@[simp] theorem get?_empty (key : String) : (empty : Dictionary α).get? key = none := rfl

def contains (d : Dictionary α) (key : String) : Bool :=
  (d.get? key).isSome

def insert (d : Dictionary α) (key : String) (value : α) : Dictionary α :=
  ⟨insertEntry key value d.entries, d.sorted.insertEntry key value⟩

theorem get?_insert (d : Dictionary α) (key : String) (value : α) (k : String) :
    (d.insert key value).get? k = if k = key then some value else d.get? k :=
  lookup_insertEntry key value d.entries k

def erase (d : Dictionary α) (key : String) : Dictionary α :=
  ⟨d.entries.filter fun e => e.1 ≠ key, d.sorted.filter _⟩

theorem get?_erase (d : Dictionary α) (key k : String) :
    (d.erase key).get? k = if k = key then none else d.get? k := by
  apply Option.ext
  intro value
  by_cases h : k = key <;> simp [get?_eq_some_iff, erase, h]

def insertNew (d : Dictionary α) (key : String) (value : α) : Dictionary α :=
  if d.contains key then d else d.insert key value

theorem get?_insertNew (d : Dictionary α) (key : String) (value : α) (k : String) :
    (d.insertNew key value).get? k = (d.get? k).or (if k = key then some value else none) := by
  unfold insertNew contains
  cases found : d.get? key with
  | none =>
    rw [Option.isSome_none, if_neg Bool.false_ne_true, get?_insert]
    by_cases same : k = key
    · simp [same, found]
    · simp [same]
  | some old =>
    rw [Option.isSome_some, if_pos rfl]
    by_cases same : k = key
    · simp [same, found]
    · simp [same]

theorem filterMap_sorted {entries : List (String × α)} (h : KeySorted entries) (f : String → α → Option α) :
    KeySorted (entries.filterMap fun e => (f e.1 e.2).map (e.1, ·)) := by
  refine List.Pairwise.filterMap _ (fun a b hab x hx y hy => ?_) h
  obtain ⟨v, -, rfl⟩ := Option.map_eq_some_iff.1 hx
  obtain ⟨w, -, rfl⟩ := Option.map_eq_some_iff.1 hy
  exact hab

def filterMap (d : Dictionary α) (f : String → α → Option α) : Dictionary α :=
  ⟨d.entries.filterMap fun e => (f e.1 e.2).map (e.1, ·), filterMap_sorted d.sorted f⟩

theorem get?_filterMap (d : Dictionary α) (f : String → α → Option α) (key : String) :
    (d.filterMap f).get? key = (d.get? key).bind (f key) := by
  apply Option.ext
  intro value
  simp only [get?_eq_some_iff, filterMap, Option.bind_eq_some_iff, List.mem_filterMap, Option.map_eq_some_iff]
  constructor
  · rintro ⟨⟨k, v⟩, hm, w, hw, he⟩
    cases he
    exact ⟨v, hm, hw⟩
  · rintro ⟨v, hm, hw⟩
    exact ⟨(key, v), hm, value, hw, rfl⟩

end Dictionary

end SpeechMarkup
