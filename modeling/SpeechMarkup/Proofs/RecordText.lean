import SpeechMarkup.Json.Record
import SpeechMarkup.Proofs.ReaderLoop

/-! Lists, objects and records read from the text that is written for them. What comes of each item or member for
itself, a value or a failure, settles what comes of the whole; and what every item or every field keeps, whatever the
text, holds of the whole that is read. -/

namespace SpeechMarkup.Json

theorem Value.compactItems_eq_map (items : List Value) : compactItems items = items.map compact := by
  induction items with
  | nil => rfl
  | cons x rest ih => rw [compactItems, ih, List.map_cons]

def Value.memberText (member : String × Value) : List Char :=
  stringText member.1 ++ ':' :: member.2.compact

theorem Value.compactMembers_eq_map (members : List (String × Value)) :
    compactMembers members = members.map memberText := by
  induction members with
  | nil => rfl
  | cons member rest ih => rw [compactMembers, ih, List.map_cons, memberText]

theorem Value.compact_object_append (members : List (String × Value)) (rest : List Char) :
    (object members).compact ++ rest = '{' :: (separated [','] (compactMembers members) ++ '}' :: rest) := by
  simp [compact]

theorem Value.compact_array_append (items : List Value) (rest : List Char) :
    (array items).compact ++ rest = '[' :: (separated [','] (items.map compact) ++ ']' :: rest) := by
  simp [compact, compactItems_eq_map]

section Scalars

theorem skipSpace_cons {c : Char} (h : isSpace c = false) (text : List Char) : skipSpace (c :: text) = c :: text := by
  simp [skipSpace, h]

theorem Head.read_string (s : String) (rest : List Char) :
    Head.read (stringText s ++ rest) = .ok (.string s, rest) := by
  have body := stringBody_text s rest
  simp [Head.read, stringText, skipSpace, isSpace, body, Except.map]

theorem readString_text (s : String) (rest : List Char) : readString (stringText s ++ rest) = .ok (s, rest) := by
  rw [readString, Head.read_string]
  rfl

theorem Value.readOver_string (inside : Option (Reader Value)) (s : String) (rest : List Char) :
    Value.readOver inside (stringText s ++ rest) = .ok (.string s, rest) := by
  rw [Value.readOver, Head.read_string]
  rfl

theorem readChoice_text {α : Type} (choices : List (String × α)) (levels : Nat) (name : String) (rest : List Char) :
    readChoice choices levels (stringText name ++ rest) = (choose choices name).map (·, rest) := by
  have body := stringBody_text name rest
  have quote : ∀ text, skipSpace ('"' :: text) = '"' :: text := fun _ => rfl
  simp only [readChoice, stringText, List.cons_append, List.append_assoc, List.nil_append, quote, if_true, body,
    ok_bind]
  cases choose choices name <;> rfl

theorem readOptional_cons {α : Type} (value : Reader α) {c : Char} (visible : isSpace c = false) (other : c ≠ 'n')
    (text : List Char) : readOptional value (c :: text) = (value (c :: text)).map fun (x, rest) => (some x, rest) := by
  rw [readOptional, skipSpace_cons visible]
  split
  · next shape => exact absurd (List.cons.inj shape).1 other
  · rfl

theorem readOptional_string {α : Type} {value : Reader α} {s : String} {rest : List Char} {result : Except ReadError α}
    (h : value (stringText s ++ rest) = result.map (·, rest)) :
    readOptional value (stringText s ++ rest) = (result.map some).map (·, rest) := by
  refine (readOptional_cons value rfl (by decide) _).trans ?_
  change (value (stringText s ++ rest)).map _ = _
  rw [h]
  cases result <;> rfl

theorem readOptional_eq_ok {α : Type} {value : Reader α} {text rest : List Char} {x : α}
    (h : readOptional value text = .ok (some x, rest)) : value text = .ok (x, rest) := by
  unfold readOptional at h
  split at h
  · obtain ⟨_, -, same⟩ := map_eq_ok_iff.1 h
    cases same
  · obtain ⟨_, read, same⟩ := map_eq_ok_iff.1 h
    cases same
    exact read

end Scalars

section Joined

/-- What follows in a list of texts with commas between them: a comma before each text but the first of all. -/
def joined (first : Bool) : List (List Char) → List Char
  | [] => []
  | text :: texts => (if first then [] else [',']) ++ text ++ joined false texts

theorem separated_eq_joined (texts : List (List Char)) : separated [','] texts = joined true texts := by
  unfold separated
  induction texts with
  | nil => rfl
  | cons text texts ih =>
    cases texts with
    | nil => simp [joined]
    | cons next texts => simpa [joined] using ih

theorem length_joined_lt {text : List Char} (h : 0 < text.length) (first : Bool) (texts : List (List Char))
    (rest : List Char) : (joined false texts ++ rest).length < (joined first (text :: texts) ++ rest).length := by
  simp only [joined, List.length_append]
  omega

theorem nextItem_joined {c : Char} (visible : isSpace c = false) (opening : c ≠ ']') (first : Bool)
    (text : List Char) (texts : List (List Char)) (rest : List Char) :
    nextItem first (joined first ((c :: text) :: texts) ++ rest) =
      .ok (true, c :: text ++ (joined false texts ++ rest)) := by
  cases first with
  | true => simp [joined, nextItem, skipSpace_cons visible, opening]
  | false =>
    have comma : skipSpace (',' :: c :: (text ++ (joined false texts ++ rest))) =
        ',' :: c :: (text ++ (joined false texts ++ rest)) := rfl
    simp [joined, nextItem, comma, skipSpace_cons visible, opening]

theorem nextName_joined (first : Bool) (name : String) (x : Value) (texts : List (List Char)) (rest : List Char) :
    nextName first (joined first (Value.memberText (name, x) :: texts) ++ rest) =
      .ok (true, name.toList.flatMap escapeChar ++ '"' :: ':' :: (x.compact ++ (joined false texts ++ rest))) := by
  cases first <;> simp [joined, Value.memberText, stringText, nextName, skipSpace, isSpace]

end Joined

section Items

variable {α β : Type} {item : Reader β} {written : α → List Char} {result : α → Except ReadError β}

theorem items_separated {xs : List α}
    (opens : ∀ x ∈ xs, ∃ c text, written x = c :: text ∧ isSpace c = false ∧ c ≠ ']')
    (back : ∀ x ∈ xs, ∀ rest, item (written x ++ rest) = (result x).map (·, rest)) (rest : List Char) :
    items item (separated [','] (xs.map written) ++ ']' :: rest) = (xs.mapM result).map (·, rest) := by
  unfold items
  extract_lets round
  have runs : ∀ first before, Runs round (first, before) (joined first (xs.map written) ++ ']' :: rest)
      ((xs.mapM result).map fun ys => (before.reverse ++ ys, rest)) := by
    induction xs with
    | nil =>
      intro first before
      have step : round (first, before) (joined first [] ++ ']' :: rest) = .ok (.done before.reverse, rest) := rfl
      simpa [pure, Except.pure, Except.map] using Runs.done step
    | cons x xs ih =>
      intro first before
      obtain ⟨c, text, shape, visible, opening⟩ := opens x List.mem_cons_self
      have goesOn : nextItem first (joined first (written x :: xs.map written) ++ ']' :: rest) =
          .ok (true, written x ++ (joined false (xs.map written) ++ ']' :: rest)) := by
        rw [shape]
        exact nextItem_joined visible opening ..
      have read := back x List.mem_cons_self (joined false (xs.map written) ++ ']' :: rest)
      rw [List.map_cons, List.mapM_cons]
      cases hx : result x with
      | error e =>
        rw [hx] at read
        refine .fail ?_
        simp only [round, goesOn, ok_bind, if_true, read]
        rfl
      | ok y =>
        rw [hx] at read
        have step : round (first, before) (joined first (written x :: xs.map written) ++ ']' :: rest) =
            .ok (.again (false, y :: before), joined false (xs.map written) ++ ']' :: rest) := by
          simp only [round, goesOn, ok_bind, if_true, read]
          rfl
        have later := ih (fun x hx => opens x (List.mem_cons_of_mem _ hx))
          (fun x hx => back x (List.mem_cons_of_mem _ hx)) false (y :: before)
        refine .again step (length_joined_lt (by simp [shape]) ..) ?_
        cases hxs : xs.mapM result <;> simpa [hxs, Except.map, pure, Except.pure] using later
  rw [separated_eq_joined]
  simpa using (runs true []).loop

theorem items_all {P : β → Prop} (each : ∀ text x rest, item text = .ok (x, rest) → P x) {text rest : List Char}
    {xs : List β} (h : items item text = .ok (xs, rest)) : ∀ x ∈ xs, P x := by
  unfold items at h
  extract_lets round at h
  have step : ∀ state text outcome rest, (∀ x ∈ state.2, P x) → round state text = .ok (outcome, rest) →
      outcome.Meets (fun state => ∀ x ∈ state.2, P x) fun xs => ∀ x ∈ xs, P x := by
    rintro ⟨first, before⟩ text outcome rest kept step
    obtain ⟨⟨more, later⟩, -, step⟩ := bind_eq_ok_iff.1 step
    cases more with
    | false =>
      obtain ⟨_, -, step⟩ := bind_eq_ok_iff.1 step
      cases step
      simpa [Round.Meets] using kept
    | true =>
      obtain ⟨⟨x, later⟩, read, step⟩ := bind_eq_ok_iff.1 step
      cases step
      exact List.forall_mem_cons.2 ⟨each _ _ _ read, kept⟩
  exact loop_keeps step (by simp) h

theorem readList_eq_ok {inside : Option (Reader β)} {text rest : List Char} {xs : List β}
    (h : readList inside text = .ok (xs, rest)) :
    ∃ item later, inside = some item ∧ items item later = .ok (xs, rest) := by
  obtain ⟨⟨head, later⟩, -, h⟩ := bind_eq_ok_iff.1 h
  cases head with
  | array =>
    cases inside with
    | none => cases h
    | some item => exact ⟨item, later, rfl, h⟩
  | _ => cases h

end Items

section Members

theorem colon_cons (text : List Char) : colon (':' :: text) = .ok text := rfl

theorem length_memberText_pos (member : String × Value) : 0 < (Value.memberText member).length := by
  simp [Value.memberText, stringText]

theorem members_separated {value : Reader Value} {ms : List (String × Value)}
    (back : ∀ m ∈ ms, ∀ rest, value (m.2.compact ++ rest) = .ok (m.2, rest)) (rest : List Char) :
    members value (separated [','] (Value.compactMembers ms) ++ '}' :: rest) = .ok (ms, rest) := by
  unfold members
  extract_lets round
  have runs : ∀ first before, Runs round (first, before) (joined first (ms.map Value.memberText) ++ '}' :: rest)
      (.ok (before.reverse ++ ms, rest)) := by
    induction ms with
    | nil =>
      intro first before
      rw [List.append_nil]
      exact .done rfl
    | cons m ms ih =>
      intro first before
      obtain ⟨name, x⟩ := m
      have read : value (x.compact ++ _) = _ := back (name, x) List.mem_cons_self
        (joined false (ms.map Value.memberText) ++ '}' :: rest)
      have step : round (first, before) (joined first (((name, x) :: ms).map Value.memberText) ++ '}' :: rest) =
          .ok (.again (false, (name, x) :: before), joined false (ms.map Value.memberText) ++ '}' :: rest) := by
        simp only [round, List.map_cons, nextName_joined, ok_bind, if_true, stringBody_text, colon_cons, read]
        rfl
      have later := ih (fun m hm => back m (List.mem_cons_of_mem _ hm)) false ((name, x) :: before)
      rw [List.reverse_cons, List.append_assoc, List.singleton_append] at later
      exact .again step (length_joined_lt (length_memberText_pos _) ..) later
  rw [separated_eq_joined, Value.compactMembers_eq_map]
  simpa using (runs true []).loop

end Members

section Fields

variable {δ α : Type} {record : Record δ α}

/-- From this draft on these members fill the fields one after the other, each a field that is still open; what
comes of it is the last draft, or the failure of the first field that its value does not suit. -/
inductive Fills (record : Record δ α) : δ → List (String × Value) → Except ReadError δ → Prop where
  | nil {draft : δ} : Fills record draft [] (.ok draft)
  | field {draft next : δ} {name : String} {x : Value} {members : List (String × Value)} {result : Except ReadError δ}
      {field : Field δ} (known : record.fields.find? (·.name = name) = some field) (isOpen : field.isSet draft = false)
      (back : ∀ rest, field.read draft (x.compact ++ rest) = .ok (next, rest))
      (later : Fills record next members result) : Fills record draft ((name, x) :: members) result
  | refused {draft : δ} {name : String} {x : Value} {members : List (String × Value)} {e : ReadError} {field : Field δ}
      (known : record.fields.find? (·.name = name) = some field) (isOpen : field.isSet draft = false)
      (unsuited : ∀ rest, field.read draft (x.compact ++ rest) = .error e) :
      Fills record draft ((name, x) :: members) (.error e)

theorem Fills.append {draft next : δ} {before members : List (String × Value)} {result : Except ReadError δ}
    (first : Fills record draft before (.ok next)) (later : Fills record next members result) :
    Fills record draft (before ++ members) result := by
  generalize h : Except.ok next = so at first
  induction first with
  | nil =>
    cases h
    exact later
  | field known isOpen back _ ih => exact .field known isOpen back (ih h)
  | refused => cases h

theorem Fills.append_error {draft : δ} {before : List (String × Value)} {e : ReadError}
    (first : Fills record draft before (.error e)) (members : List (String × Value)) :
    Fills record draft (before ++ members) (.error e) := by
  generalize h : Except.error e = so at first
  induction first with
  | nil => cases h
  | field known isOpen back _ ih => exact .field known isOpen back (ih h)
  | refused known isOpen unsuited =>
    cases h
    exact .refused known isOpen unsuited

theorem Fills.optional {β γ : Type} {name : String} {required : Bool} {get : δ → Option β} {set : δ → β → δ}
    {value : Reader β} {draft : δ} {x : Option γ} {write : γ → Value} {result : γ → Except ReadError β}
    (known : record.fields.find? (·.name = name) = some (.of name required get set value)) (isOpen : get draft = none)
    (back : ∀ v, x = some v → ∀ rest, value ((write v).compact ++ rest) = (result v).map (·, rest)) :
    Fills record draft (x.toList.map fun v => (name, write v))
      (x.elim (.ok draft) fun v => (result v).map (set draft)) := by
  have unset : (Field.of name required get set value).isSet draft = false := by simp [Field.of, isOpen]
  cases x with
  | none => exact .nil
  | some v =>
    have read : ∀ rest, (Field.of name required get set value).read draft ((write v).compact ++ rest) =
        ((result v).map (set draft)).map (·, rest) := by
      intro rest
      simp only [Field.of, back v rfl rest]
      cases result v <;> rfl
    simp only [Option.toList_some, List.map_cons, List.map_nil, Option.elim_some]
    cases so : result v with
    | error e => exact .refused known unset fun rest => by rw [read, so]; rfl
    | ok b => exact .field known unset (fun rest => by rw [read, so]; rfl) .nil

theorem Fills.readObject {members : List (String × Value)} {result : Except ReadError δ}
    (fills : Fills record record.start members result) (rest : List Char) :
    record.readObject (separated [','] (Value.compactMembers members) ++ '}' :: rest) =
      (result >>= record.finish).map (·, rest) := by
  unfold Record.readObject
  extract_lets round
  have runs : ∀ first, Runs round (first, record.start) (joined first (members.map Value.memberText) ++ '}' :: rest)
      ((result >>= record.finish).map (·, rest)) := by
    -- The members behind are read into the draft that the members before have left.
    generalize record.start = draft at fills
    induction fills with
    | @nil draft =>
      intro first
      have closing : round (first, draft) (joined first [] ++ '}' :: rest) =
          (record.finish draft).bind fun a => .ok (.done a, rest) := rfl
      rw [ok_bind]
      cases finished : record.finish draft with
      | error e => exact .fail (closing.trans (by rw [finished]; rfl))
      | ok a => exact .done (closing.trans (by rw [finished]; rfl))
    | @field draft next name x members result field known isOpen back later ih =>
      intro first
      have step : round (first, draft) (joined first (((name, x) :: members).map Value.memberText) ++ '}' :: rest) =
          .ok (.again (false, next), joined false (members.map Value.memberText) ++ '}' :: rest) := by
        simp only [round, List.map_cons, nextName_joined, ok_bind, if_true, stringBody_text, known, isOpen,
          Bool.false_eq_true, if_false, colon_cons, back]
        rfl
      exact .again step (length_joined_lt (length_memberText_pos _) ..) (ih false)
    | @refused draft name x members e field known isOpen unsuited =>
      intro first
      refine .fail ?_
      simp only [round, List.map_cons, nextName_joined, ok_bind, if_true, stringBody_text, known, isOpen,
        Bool.false_eq_true, if_false, colon_cons, unsuited, error_bind]
  rw [separated_eq_joined, Value.compactMembers_eq_map]
  exact (runs true).loop

/-- A property of drafts that the first draft has and that no field takes away, whatever is read into it. -/
structure Record.Keeps (record : Record δ α) (P : δ → Prop) : Prop where
  start : P record.start
  field : ∀ field ∈ record.fields, ∀ draft text next rest,
    P draft → field.read draft text = .ok (next, rest) → P next

variable {P : δ → Prop} {a : α} {text rest : List Char}

theorem Record.Keeps.readObject (keeps : record.Keeps P) (h : record.readObject text = .ok (a, rest)) :
    ∃ draft, P draft ∧ record.finish draft = .ok a := by
  unfold Record.readObject at h
  extract_lets round at h
  have step : ∀ state text outcome rest, P state.2 → round state text = .ok (outcome, rest) →
      outcome.Meets (fun state => P state.2) fun a => ∃ draft, P draft ∧ record.finish draft = .ok a := by
    rintro ⟨first, draft⟩ text outcome rest kept step
    obtain ⟨⟨more, later⟩, -, step⟩ := bind_eq_ok_iff.1 step
    cases more with
    | false =>
      obtain ⟨_, finished, step⟩ := bind_eq_ok_iff.1 step
      cases step
      exact ⟨draft, kept, finished⟩
    | true =>
      obtain ⟨⟨name, later⟩, -, step⟩ := bind_eq_ok_iff.1 step
      cases known : record.fields.find? (·.name = name) with
      | none =>
        simp only [known] at step
        obtain ⟨_, -, step⟩ := bind_eq_ok_iff.1 step
        obtain ⟨_, -, step⟩ := bind_eq_ok_iff.1 step
        cases step
        exact kept
      | some field =>
        simp only [known] at step
        split at step
        · cases step
        · obtain ⟨_, -, step⟩ := bind_eq_ok_iff.1 step
          obtain ⟨_, read, step⟩ := bind_eq_ok_iff.1 step
          cases step
          exact keeps.field field (List.mem_of_find?_eq_some known) _ _ _ _ kept read
  exact loop_keeps step keeps.start h

theorem Record.readFields_keeps {expected : String} {fields : List (Field δ)}
    (each : ∀ field ∈ fields, ∀ draft text next rest, P draft → field.read draft text = .ok (next, rest) → P next)
    {index : Nat} {draft next : δ} (kept : P draft)
    (h : Record.readFields expected fields index draft text = .ok (next, rest)) : P next := by
  induction fields generalizing index draft text with
  | nil =>
    cases h
    exact kept
  | cons field fields ih =>
    rw [Record.readFields] at h
    obtain ⟨⟨more, later⟩, -, h⟩ := bind_eq_ok_iff.1 h
    cases more with
    | false =>
      simp only [Bool.false_eq_true, if_false] at h
      split at h
      · cases h
        exact kept
      · cases h
    | true =>
      obtain ⟨⟨between, later⟩, read, h⟩ := bind_eq_ok_iff.1 h
      have held := each field List.mem_cons_self _ _ _ _ kept read
      exact ih (fun field hf => each field (List.mem_cons_of_mem _ hf)) held h

theorem Record.Keeps.readArray {title : String} (keeps : record.Keeps P)
    (h : record.readArray title text = .ok (a, rest)) : ∃ draft, P draft ∧ record.finish draft = .ok a := by
  unfold Record.readArray at h
  obtain ⟨⟨draft, later⟩, read, h⟩ := bind_eq_ok_iff.1 h
  obtain ⟨_, finished, h⟩ := bind_eq_ok_iff.1 h
  obtain ⟨_, -, h⟩ := bind_eq_ok_iff.1 h
  cases h
  exact ⟨draft, Record.readFields_keeps keeps.field keeps.start read, finished⟩

theorem Record.Keeps.readOver {title : String} (keeps : record.Keeps P)
    (h : Record.readOver title (some record) text = .ok (a, rest)) :
    ∃ draft, P draft ∧ record.finish draft = .ok a := by
  unfold Record.readOver at h
  obtain ⟨⟨head, later⟩, -, h⟩ := bind_eq_ok_iff.1 h
  cases head with
  | array => exact keeps.readArray h
  | object => exact keeps.readObject h
  | _ => cases h

theorem Record.readOver_none {title : String} :
    Record.readOver title (none : Option (Record δ α)) text ≠ .ok (a, rest) := by
  intro h
  unfold Record.readOver at h
  obtain ⟨⟨head, later⟩, -, h⟩ := bind_eq_ok_iff.1 h
  cases head <;> cases h

theorem Field.of_read_eq_ok {β : Type} {name : String} {required : Bool} {get : δ → Option β} {set : δ → β → δ}
    {value : Reader β} {draft next : δ}
    (h : (Field.of name required get set value).read draft text = .ok (next, rest)) :
    ∃ x, value text = .ok (x, rest) ∧ next = set draft x := by
  obtain ⟨⟨x, _⟩, read, same⟩ := map_eq_ok_iff.1 h
  cases same
  exact ⟨x, read, rfl⟩

end Fields

end SpeechMarkup.Json
