import SpeechMarkup.Proofs.PassedTree

/-! Records and the trees that they are read from: an object, whose members are fed to the fields of their names in
whatever order they come, or an array, whose items are placed in the fields in their order. -/

namespace SpeechMarkup.Json

section Canonical

variable {α : Type} {reader : Reader α} {t : Tree} {x : α}

theorem woven_flatten (tokens : List (List Char)) : Woven tokens tokens.flatten [] := by
  induction tokens with
  | nil => exact .nil
  | cons token tokens ih => exact Woven.cons (List.forall_mem_nil _) ih

theorem Takes.belongs {P : Tree → α → Prop} (takes : Takes reader t x) (yields : Yields reader P) : P t x := by
  have written := woven_flatten t.tokens
  obtain ⟨t', woven, belongs⟩ := yields _ _ _ (takes _ _ written (follows_of_blank (List.forall_mem_nil _)))
  rwa [Tree.unique written woven]

theorem takes_map_iff {β : Type} {f : α → β} (injective : ∀ x y, f x = f y → x = y) {y : β} :
    Takes (fun text => (reader text).map fun (x, rest) => (f x, rest)) t y ↔ ∃ x, Takes reader t x ∧ y = f x := by
  constructor
  · intro takes
    have some := takes _ _ (woven_flatten t.tokens) (follows_of_blank (List.forall_mem_nil _))
    obtain ⟨⟨x, _⟩, -, same⟩ := map_eq_ok_iff.1 some
    cases same
    refine ⟨x, fun text rest woven follows => ?_, rfl⟩
    obtain ⟨⟨x', _⟩, read, same⟩ := map_eq_ok_iff.1 (takes text rest woven follows)
    obtain ⟨value, rfl⟩ := Prod.mk.inj same
    rwa [injective _ _ value] at read
  · rintro ⟨x, takes, rfl⟩
    exact takes.map f

theorem Takes.readAll {text : String} (takes : Takes reader t x) (spells : t.Spells text.toList) :
    readAll reader text = .ok x := by
  obtain ⟨rest, blank, woven⟩ := spells
  have ended : skipSpace rest = [] := by
    rw [← List.append_nil rest, skipSpace_of_blank blank]
    rfl
  rw [Json.readAll, takes _ _ woven (follows_of_blank blank), ok_bind]
  simp [ended, pure, Except.pure]

/-- A text that is read from end to end spells a tree, and its value is the one that is taken off the tree. -/
theorem Grammatical.readAll_eq_ok_iff (grammatical : Grammatical reader) {text : String} :
    readAll reader text = .ok x ↔ ∃ t : Tree, t.Spells text.toList ∧ Takes reader t x := by
  constructor
  · intro h
    obtain ⟨⟨_, rest⟩, read, h⟩ := bind_eq_ok_iff.1 h
    dsimp only at h
    split at h
    next ended =>
      cases h
      obtain ⟨t, woven, takes⟩ := grammatical _ _ _ read
      exact ⟨t, ⟨rest, blank_of_skipSpace (List.isEmpty_iff.1 ended), woven⟩, takes⟩
    · cases h
  · rintro ⟨t, spells, takes⟩
    exact takes.readAll spells

theorem Tree.Spells.unique {t t' : Tree} {text : List Char} (spells : t.Spells text) (spells' : t'.Spells text) :
    t = t' := by
  obtain ⟨rest, blank, woven⟩ := spells
  obtain ⟨rest', blank', woven'⟩ := spells'
  obtain rfl := Tree.rest_unique woven woven' (follows_of_blank blank) (follows_of_blank blank')
  exact Tree.unique woven woven'

theorem Tree.Spells.readAll_eq_ok_iff {text : String} (grammatical : Grammatical reader)
    (spells : t.Spells text.toList) : Json.readAll reader text = .ok x ↔ Takes reader t x := by
  rw [grammatical.readAll_eq_ok_iff]
  constructor
  · rintro ⟨s, spells', takes⟩
    exact spells'.unique spells ▸ takes
  · exact fun takes => ⟨t, spells, takes⟩

theorem Tree.spells_flatten (t : Tree) : t.Spells t.tokens.flatten :=
  ⟨[], List.forall_mem_nil _, woven_flatten _⟩

end Canonical

section Slots

variable {β : Type} {reader : Reader β} {slot slot' : Option β} {t t' : Tree} {ts ts' : List Tree}
  {name : Name} {s field : String} {members members' : List (Name × Tree)}

def named (field : String) (members : List (Name × Tree)) : List Tree :=
  members.filterMap fun m => if m.1.value? = some field then some m.2 else none

theorem named_append : named field (members ++ members') = named field members ++ named field members' :=
  List.filterMap_append

theorem named_cons_self (value : name.value? = some field) :
    named field ((name, t) :: members) = t :: named field members :=
  List.filterMap_cons_some (if_pos value)

theorem named_cons_of_ne (value : name.value? = some s) (other : s ≠ field) :
    named field ((name, t) :: members) = named field members := by
  refine List.filterMap_cons_none (if_neg ?_)
  rw [value]
  exact fun same => other (Option.some.inj same)

/-- A place of a draft before and after these values have been read into it: it takes in one value, if it is open. -/
inductive Settles (reader : Reader β) : Option β → List Tree → Option β → Prop where
  | rest {slot : Option β} : Settles reader slot [] slot
  | value {t : Tree} {x : β} (takes : Takes reader t x) : Settles reader none [t] (some x)

theorem settles_nil_iff : Settles reader slot [] slot' ↔ slot = slot' := by
  constructor
  · rintro ⟨⟩
    rfl
  · rintro rfl
    exact .rest

theorem settles_cons_iff :
    Settles reader slot (t :: ts) slot' ↔ slot = none ∧ ∃ x, Takes reader t x ∧ Settles reader (some x) ts slot' := by
  constructor
  · rintro (_ | takes)
    exact ⟨rfl, _, takes, .rest⟩
  · rintro ⟨rfl, x, takes, settles⟩
    cases settles
    exact .value takes

theorem Settles.perm (settles : Settles reader slot ts slot') (perm : ts.Perm ts') : Settles reader slot ts' slot' := by
  cases settles with
  | rest => exact perm.nil_eq ▸ .rest
  | value takes => exact List.perm_singleton.1 perm.symm ▸ .value takes

theorem settles_middle_iff {front behind : List Tree} : Settles reader slot (front ++ t :: behind) slot' ↔
    slot = none ∧ front ++ behind = [] ∧ ∃ x, Takes reader t x ∧ slot' = some x := by
  constructor
  · intro settles
    generalize whole : front ++ t :: behind = values at settles
    cases settles with
    | rest => exact absurd whole (by simp)
    | value takes =>
      obtain ⟨rfl, rfl, rfl⟩ : front = [] ∧ t = _ ∧ behind = [] := by simpa [List.append_eq_singleton_iff] using whole
      exact ⟨rfl, rfl, _, takes, rfl⟩
  · rintro ⟨rfl, empty, x, takes, rfl⟩
    obtain ⟨rfl, rfl⟩ := List.append_eq_nil_iff.1 empty
    exact .value takes

theorem Settles.replace {front behind : List Tree} (settles : Settles reader slot (front ++ t :: behind) slot')
    (takes : ∀ x, Takes reader t x → Takes reader t' x) : Settles reader slot (front ++ t' :: behind) slot' := by
  obtain ⟨isOpen, alone, x, taken, filled⟩ := settles_middle_iff.1 settles
  exact settles_middle_iff.2 ⟨isOpen, alone, x, takes x taken, filled⟩

end Slots

section Records

variable {δ α : Type} {fields : List (Field δ)} {record : Record δ α} {text mid rest : List Char}
  {draft last : δ} {a : α}

/-- From this draft on members are read into the fields that have their names, each into a field that is still open.
Members of other names are passed over. -/
inductive Fed (fields : List (Field δ)) : δ → List (Name × Tree) → δ → Prop where
  | nil {draft : δ} : Fed fields draft [] draft
  | unknown {draft last : δ} {name : Name} {s : String} {t : Tree} {ms : List (Name × Tree)} (decodes : name.Decodes s)
      (unknown : fields.find? (·.name = s) = none) (later : Fed fields draft ms last) :
      Fed fields draft ((name, t) :: ms) last
  | field {draft next last : δ} {name : Name} {s : String} {t : Tree} {ms : List (Name × Tree)} {field : Field δ}
      (decodes : name.Decodes s) (known : fields.find? (·.name = s) = some field) (isOpen : field.isSet draft = false)
      (takes : Takes (field.read draft) t next) (later : Fed fields next ms last) :
      Fed fields draft ((name, t) :: ms) last

/-- From this draft on items are read into these fields one by one; fields at the end may be left. -/
inductive Placed : List (Field δ) → δ → List Tree → δ → Prop where
  | rest {fields : List (Field δ)} {draft : δ} (free : ∀ field ∈ fields, field.required = false) :
      Placed fields draft [] draft
  | item {field : Field δ} {fields : List (Field δ)} {draft next last : δ} {t : Tree} {ts : List Tree}
      (takes : Takes (field.read draft) t next) (later : Placed fields next ts last) :
      Placed (field :: fields) draft (t :: ts) last

theorem Placed.replace {front behind : List Tree} {t t' : Tree}
    (placed : Placed fields draft (front ++ t :: behind) last)
    (takes : ∀ field, fields[front.length]? = some field →
      ∀ draft next, Takes (field.read draft) t next → Takes (field.read draft) t' next) :
    Placed fields draft (front ++ t' :: behind) last := by
  induction front generalizing fields draft with
  | nil =>
    obtain _ | ⟨own, later⟩ := placed
    exact .item (takes _ rfl _ _ own) later
  | cons _ front ih =>
    obtain _ | ⟨own, later⟩ := placed
    exact .item own (ih later takes)

inductive Record.Drafts (record : Record δ α) : Tree → δ → Prop where
  | object {ms : List (Name × Tree)} {last : δ} (fed : Fed record.fields record.start ms last) :
      Drafts record (.object ms) last
  | array {ts : List Tree} {last : δ} (placed : Placed record.fields record.start ts last) :
      Drafts record (.array ts) last

def FieldsGrammatical (fields : List (Field δ)) : Prop :=
  ∀ field ∈ fields, ∀ draft, Grammatical (field.read draft)

section Of

variable {β : Type} {name : String} {required : Bool} {get : δ → Option β} {set : δ → β → δ} {value : Reader β}

theorem grammatical_of (grammatical : Grammatical value) (draft : δ) :
    Grammatical ((Field.of name required get set value).read draft) :=
  grammatical.map (set draft)

theorem takes_of_iff {t : Tree} {next : δ} (injective : ∀ x y, set draft x = set draft y → x = y) :
    Takes ((Field.of name required get set value).read draft) t next ↔ ∃ x, Takes value t x ∧ next = set draft x :=
  takes_map_iff injective

theorem fed_cons_iff_of {name : Name} {s title : String} {t : Tree} {ms : List (Name × Tree)} (decodes : name.Decodes s)
    (known : fields.find? (·.name = s) = some (.of title required get set value))
    (injective : ∀ x y, set draft x = set draft y → x = y) :
    Fed fields draft ((name, t) :: ms) last ↔
      get draft = none ∧ ∃ x, Takes value t x ∧ Fed fields (set draft x) ms last := by
  constructor
  · rintro (_ | ⟨decodes', unknown, _⟩ | ⟨decodes', known', isOpen, takes, later⟩)
    · rw [decodes.unique decodes', unknown] at known
      cases known
    · rw [decodes.unique decodes', known'] at known
      obtain rfl := Option.some.inj known
      obtain ⟨x, taken, rfl⟩ := (takes_of_iff injective).1 takes
      exact ⟨by simpa [Field.of] using isOpen, x, taken, later⟩
  · rintro ⟨isOpen, x, takes, later⟩
    exact .field decodes known (by simp [Field.of, isOpen]) ((takes_of_iff injective).2 ⟨x, takes, rfl⟩) later

theorem placed_cons_iff_of {t : Tree} {ts : List Tree} (injective : ∀ x y, set draft x = set draft y → x = y) :
    Placed (.of name required get set value :: fields) draft (t :: ts) last ↔
      ∃ x, Takes value t x ∧ Placed fields (set draft x) ts last := by
  constructor
  · rintro (_ | ⟨own, later⟩)
    obtain ⟨x, takes, rfl⟩ := (takes_of_iff injective).1 own
    exact ⟨x, takes, later⟩
  · rintro ⟨x, takes, later⟩
    exact .item ((takes_of_iff injective).2 ⟨x, takes, rfl⟩) later

end Of

section Related

variable {R : δ → δ → Prop}

def Field.Keeps (R : δ → δ → Prop) (field : Field δ) : Prop :=
  ∀ draft draft' t next, R draft draft' → Takes (field.read draft) t next →
    ∃ next', Takes (field.read draft') t next' ∧ R next next'

theorem keeps_of {β : Type} {name : String} {required : Bool} {get : δ → Option β} {set : δ → β → δ} {value : Reader β}
    (injective : ∀ draft x y, set draft x = set draft y → x = y)
    (keeps : ∀ draft draft' x, R draft draft' → R (set draft x) (set draft' x)) :
    (Field.of name required get set value).Keeps R := by
  intro draft draft' t next related takes
  obtain ⟨x, taken, rfl⟩ := (takes_of_iff (injective draft)).1 takes
  exact ⟨_, (takes_of_iff (injective _)).2 ⟨x, taken, rfl⟩, keeps draft draft' x related⟩

theorem Placed.related {draft' : δ} {ts : List Tree} (placed : Placed fields draft ts last)
    (keeps : ∀ field ∈ fields, field.Keeps R) (start : R draft draft') :
    ∃ last', Placed fields draft' ts last' ∧ R last last' := by
  induction placed generalizing draft' with
  | rest free => exact ⟨draft', .rest free, start⟩
  | item takes _ ih =>
    obtain ⟨own, others⟩ := List.forall_mem_cons.1 keeps
    obtain ⟨next', takes', related⟩ := own _ _ _ _ start takes
    obtain ⟨last', placed, related⟩ := ih others related
    exact ⟨last', .item takes' placed, related⟩

end Related

theorem fed_cons_iff_unknown {name : Name} {s : String} {t : Tree} {ms : List (Name × Tree)} (decodes : name.Decodes s)
    (unknown : fields.find? (·.name = s) = none) :
    Fed fields draft ((name, t) :: ms) last ↔ Fed fields draft ms last := by
  constructor
  · rintro (_ | ⟨_, _, later⟩ | ⟨decodes', known, _, _, _⟩)
    · exact later
    · rw [decodes.unique decodes', known] at unknown
      cases unknown
  · exact .unknown decodes unknown

theorem Fed.exists_decodes {ms : List (Name × Tree)} (fed : Fed fields draft ms last) :
    ∀ m ∈ ms, ∃ s, m.1.Decodes s := by
  induction fed with
  | nil => exact List.forall_mem_nil _
  | unknown decodes _ _ ih => exact List.forall_mem_cons.2 ⟨⟨_, decodes⟩, ih⟩
  | field decodes _ _ _ _ ih => exact List.forall_mem_cons.2 ⟨⟨_, decodes⟩, ih⟩

theorem readObject_eq_ok (grammatical : FieldsGrammatical record.fields) (h : record.readObject text = .ok (a, rest)) :
    ∃ ms last, Woven (Tree.memberTokens true ms) text rest ∧ Fed record.fields record.start ms last ∧
      record.finish last = .ok a := by
  unfold Record.readObject at h
  extract_lets round at h
  refine loop_induct (P := fun state text => ∃ ms last, Woven (Tree.memberTokens state.1 ms) text rest ∧
    Fed record.fields state.2 ms last ∧ record.finish last = .ok a) h ?_ ?_
  · rintro ⟨first, draft⟩ text ended
    obtain ⟨⟨more, _⟩, next, ended⟩ := bind_eq_ok_iff.1 ended
    cases more with
    | false =>
      obtain ⟨_, finished, ended⟩ := bind_eq_ok_iff.1 ended
      cases ended
      exact ⟨[], draft, woven_of_nextName_end next, .nil, finished⟩
    | true =>
      obtain ⟨⟨s, _⟩, -, ended⟩ := bind_eq_ok_iff.1 ended
      cases known : record.fields.find? (·.name = s) with
      | none =>
        simp only [known] at ended
        obtain ⟨_, -, ended⟩ := bind_eq_ok_iff.1 ended
        obtain ⟨_, -, ended⟩ := bind_eq_ok_iff.1 ended
        cases ended
      | some field =>
        simp only [known] at ended
        split at ended
        · cases ended
        · obtain ⟨_, -, ended⟩ := bind_eq_ok_iff.1 ended
          obtain ⟨_, -, ended⟩ := bind_eq_ok_iff.1 ended
          cases ended
  · rintro ⟨first, draft⟩ text ⟨_, _⟩ mid goesOn ⟨ms, last, others, fed, finished⟩
    obtain ⟨⟨more, _⟩, next, goesOn⟩ := bind_eq_ok_iff.1 goesOn
    cases more with
    | false =>
      obtain ⟨_, -, goesOn⟩ := bind_eq_ok_iff.1 goesOn
      cases goesOn
    | true =>
      obtain ⟨⟨s, _⟩, named, goesOn⟩ := bind_eq_ok_iff.1 goesOn
      obtain ⟨name, written, decodes⟩ := exists_name_of_stringBody named
      rw [written] at next
      cases known : record.fields.find? (·.name = s) with
      | none =>
        simp only [known] at goesOn
        obtain ⟨_, mark, goesOn⟩ := bind_eq_ok_iff.1 goesOn
        obtain ⟨_, passed, goesOn⟩ := bind_eq_ok_iff.1 goesOn
        cases goesOn
        obtain ⟨t, woven⟩ := Pass.passValue_eq_ok passed
        exact ⟨(name, t) :: ms, last, woven_of_nextName next mark woven others, .unknown decodes known fed, finished⟩
      | some field =>
        simp only [known] at goesOn
        split at goesOn
        · cases goesOn
        next isOpen =>
        obtain ⟨_, mark, goesOn⟩ := bind_eq_ok_iff.1 goesOn
        obtain ⟨⟨filled, _⟩, read, goesOn⟩ := bind_eq_ok_iff.1 goesOn
        cases goesOn
        obtain ⟨t, woven, takes⟩ := grammatical field (List.mem_of_find?_eq_some known) draft _ _ _ read
        exact ⟨(name, t) :: ms, last, woven_of_nextName next mark woven others,
          .field decodes known (Bool.not_eq_true _ ▸ isOpen) takes fed, finished⟩

theorem readObject_of_woven {ms : List (Name × Tree)} (fed : Fed record.fields record.start ms last)
    (finished : record.finish last = .ok a) (woven : Woven (Tree.memberTokens true ms) text rest) :
    record.readObject text = .ok (a, rest) := by
  unfold Record.readObject
  extract_lets round
  have runs : ∀ first, Woven (Tree.memberTokens first ms) text rest →
      Runs round (first, record.start) text (.ok (a, rest)) := by
    clear woven
    -- The members behind are fed to the draft that the members before have left.
    generalize record.start = draft at fed
    induction fed generalizing text with
    | nil =>
      intro first woven
      refine .done ?_
      simp only [round, nextName_end woven, ok_bind, Bool.false_eq_true, if_false, finished]
      rfl
    | @unknown draft last name s t ms decodes unknown _ ih =>
      intro first woven
      obtain ⟨behind, front, later, next, mark, woven, others, shorter⟩ := nextName_member woven
      have step : round (first, draft) text = .ok (.again (false, draft), later) := by
        simp only [round, next, ok_bind, if_true, decodes behind, unknown, mark,
          Pass.passValue_of_woven woven (follows_members others)]
        rfl
      exact .again step (Nat.lt_trans (Tree.length_lt woven) shorter) (ih finished false others)
    | @field draft filled last name s t ms field decodes known isOpen takes _ ih =>
      intro first woven
      obtain ⟨behind, front, later, next, mark, woven, others, shorter⟩ := nextName_member woven
      have step : round (first, draft) text = .ok (.again (false, filled), later) := by
        simp only [round, next, ok_bind, if_true, decodes behind, known, isOpen, Bool.false_eq_true, if_false, mark,
          takes front later woven (follows_members others)]
        rfl
      exact .again step (Nat.lt_trans (Tree.length_lt woven) shorter) (ih finished false others)
  exact (runs true woven).loop

theorem woven_of_closeArray {first : Bool} (h : closeArray text = .ok rest) :
    Woven (Tree.itemTokens first []) text rest := by
  unfold closeArray at h
  split at h
  · cases h
  next c _ shape =>
  split at h
  next bracket =>
    cases h
    subst bracket
    exact woven_items_nil shape
  split at h <;> cases h

theorem closeArray_of_woven {first : Bool} (woven : Woven (Tree.itemTokens first []) text rest) :
    closeArray text = .ok rest := by
  rw [Tree.itemTokens] at woven
  obtain ⟨_, shape, ⟨⟩⟩ := woven.skipSpace rfl
  simp [closeArray, shape]

theorem readFields_eq_ok {expected : String} {index : Nat} (grammatical : FieldsGrammatical fields)
    (h : Record.readFields expected fields index draft text = .ok (last, mid)) (closed : closeArray mid = .ok rest) :
    ∃ ts, Woven (Tree.itemTokens (index = 0) ts) text rest ∧ Placed fields draft ts last := by
  induction fields generalizing index draft text with
  | nil =>
    cases h
    exact ⟨[], woven_of_closeArray closed, .rest (List.forall_mem_nil _)⟩
  | cons field fields ih =>
    rw [Record.readFields] at h
    obtain ⟨⟨more, front⟩, next, h⟩ := bind_eq_ok_iff.1 h
    cases more with
    | false =>
      simp only [Bool.false_eq_true, if_false] at h
      split at h
      next free =>
        cases h
        exact ⟨[], woven_of_nextItem_end next closed, .rest (by simpa using free)⟩
      · cases h
    | true =>
      obtain ⟨⟨filled, later⟩, read, h⟩ := bind_eq_ok_iff.1 h
      obtain ⟨own, others⟩ := List.forall_mem_cons.1 grammatical
      obtain ⟨t, woven, takes⟩ := own draft _ _ _ read
      obtain ⟨ts, behind, placed⟩ := ih others h
      have behind : Woven (Tree.itemTokens false ts) later rest := by simpa using behind
      exact ⟨t :: ts, woven_of_nextItem next woven behind, .item takes placed⟩

theorem readFields_of_woven (expected : String) (index : Nat) {ts : List Tree} (placed : Placed fields draft ts last)
    (woven : Woven (Tree.itemTokens (index = 0) ts) text rest) :
    ∃ mid, Record.readFields expected fields index draft text = .ok (last, mid) ∧ closeArray mid = .ok rest := by
  induction placed generalizing index text with
  | @rest fields draft free =>
    cases fields with
    | nil => exact ⟨text, rfl, closeArray_of_woven woven⟩
    | cons field fields =>
      obtain ⟨closing, next, closed⟩ := nextItem_end woven
      have none : (field :: fields).findIdx? (·.required) = none := by simpa using free
      refine ⟨closing, ?_, closed⟩
      simp only [Record.readFields, next, ok_bind, Bool.false_eq_true, if_false, none]
      rfl
  | @item field fields draft filled last t ts takes _ ih =>
    obtain ⟨front, later, next, woven, others, -⟩ := nextItem_item woven
    have others' : Woven (Tree.itemTokens (index + 1 = 0) ts) later rest := by simpa using others
    obtain ⟨mid, read, closed⟩ := ih (index + 1) others'
    refine ⟨mid, ?_, closed⟩
    simp only [Record.readFields, next, ok_bind, if_true, takes front later woven (follows_items others)]
    exact read

theorem yields_readOver {title : String} (grammatical : FieldsGrammatical record.fields) :
    Yields (Record.readOver title (some record)) fun t a =>
      ∃ last, record.Drafts t last ∧ record.finish last = .ok a := by
  intro text a rest h
  obtain ⟨⟨head, inside⟩, read, h⟩ := bind_eq_ok_iff.1 h
  have beginning := Head.read_eq_ok read
  cases head with
  | array =>
    obtain woven | _ | ⟨-, -, bracket, -⟩ := beginning
    · obtain ⟨⟨last, _⟩, fields, h⟩ := bind_eq_ok_iff.1 h
      obtain ⟨_, finished, h⟩ := bind_eq_ok_iff.1 h
      obtain ⟨_, closed, h⟩ := bind_eq_ok_iff.1 h
      cases h
      obtain ⟨ts, others, placed⟩ := readFields_eq_ok grammatical fields closed
      exact ⟨.array ts, woven_array woven others, last, .array placed, finished⟩
    · exact absurd rfl bracket
  | object =>
    obtain _ | woven | ⟨-, -, -, brace⟩ := beginning
    · obtain ⟨ms, last, others, fed, finished⟩ := readObject_eq_ok grammatical h
      exact ⟨.object ms, woven_object woven others, last, .object fed, finished⟩
    · exact absurd rfl brace
  | _ => cases h

theorem Record.Drafts.takes {title : String} {t : Tree} (drafts : record.Drafts t last)
    (finished : record.finish last = .ok a) : Takes (Record.readOver title (some record)) t a := by
  intro text rest woven _
  cases drafts with
  | object fed =>
    obtain ⟨inside, head, woven⟩ := Head.read_object woven
    rw [Record.readOver, head, ok_bind]
    exact readObject_of_woven fed finished woven
  | array placed =>
    obtain ⟨inside, head, woven⟩ := Head.read_array woven
    rw [Record.readOver, head, ok_bind]
    simp only [Record.readArray]
    obtain ⟨mid, fields, closed⟩ := readFields_of_woven _ 0 placed woven
    rw [fields, ok_bind]
    simp only [finished, ok_bind, closed]
    rfl

end Records

end SpeechMarkup.Json
