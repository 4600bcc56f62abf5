import SpeechMarkup.Proofs.ElementText
import SpeechMarkup.Proofs.TreeRecords

/-! The layout of elements in a text. An element is read from an object, whatever the order of its members and whatever
members of other names stand between them, or from the array of its fields; blanks between tokens do not matter. -/

namespace SpeechMarkup.Element

open Json

section Relaid

/-- What stands in an array for a field that is absent: an empty name, and `null` for every other field. -/
def filler (field : String) : Tree :=
  if field = "name" then .scalar ⟨['"', '"'], .string .nil⟩ else .null

def Shows (members : List (Name × Tree)) (field : String) (item : Tree) : Prop :=
  item ∈ named field members ∨ named field members = [] ∧ item = filler field

/-- The items of an array show these fields one by one. Fields at the end that are absent may be left out. -/
inductive Listed (members : List (Name × Tree)) : List String → List Tree → Prop where
  | rest {fields : List String} (absent : ∀ field ∈ fields, named field members = []) : Listed members fields []
  | item {field : String} {fields : List String} {t : Tree} {ts : List Tree} (shows : Shows members field t)
      (later : Listed members fields ts) : Listed members (field :: fields) (t :: ts)

/-- The second tree is the first one with elements laid out in another way: members permuted or members of unknown
names inserted, an object replaced by the array of its fields, and the same for elements inside. -/
inductive Relaid : Tree → Tree → Prop where
  | refl (t : Tree) : Relaid t t
  | trans {s t u : Tree} (first : Relaid s t) (second : Relaid t u) : Relaid s u
  | permuted {members members' : List (Name × Tree)} (perm : members.Perm members') :
      Relaid (.object members) (.object members')
  | inserted {front behind : List (Name × Tree)} {name : Name} {s : String} (value : Tree) (read : name.value? = some s)
      (unknown : s ∉ fieldNames) : Relaid (.object (front ++ behind)) (.object (front ++ (name, value) :: behind))
  | listed {members : List (Name × Tree)} {items : List Tree} (shown : Listed members fieldNames items) :
      Relaid (.object members) (.array items)
  | inside {child child' : Tree} {before after : List Tree} {front behind : List (Name × Tree)} {name : Name}
      (elements : name.value? = some "elements") (relaid : Relaid child child') :
      Relaid (.object (front ++ (name, .array (before ++ child :: after)) :: behind))
        (.object (front ++ (name, .array (before ++ child' :: after)) :: behind))
  | insideArray {child child' kind name attributes : Tree} {before after behind : List Tree}
      (relaid : Relaid child child') :
      Relaid (.array (kind :: name :: attributes :: .array (before ++ child :: after) :: behind))
        (.array (kind :: name :: attributes :: .array (before ++ child' :: after) :: behind))

end Relaid

section Reading

variable {levels : Nat} {child : Option (Reader Element)} {t : Tree} {v : Value} {e : Element}

def readAttributes (levels : Nat) : Reader Attributes :=
  fun text => (Value.read levels text).map fun (value, rest) => (Attributes.ofValue value, rest)

theorem fieldsGrammatical_record (grammatical : ∀ item ∈ child, Grammatical item) :
    FieldsGrammatical (record levels child).fields := by
  intro field known draft
  simp only [record, List.mem_cons, List.not_mem_nil, or_false] at known
  obtain rfl | rfl | rfl | rfl | rfl := known
  · exact grammatical_of grammatical_readChoice.readOptional draft
  · exact grammatical_of grammatical_readString draft
  · exact grammatical_of ((Json.grammatical_read levels).map Attributes.ofValue) draft
  · exact grammatical_of (grammatical_readList grammatical).readOptional draft
  · exact grammatical_of grammatical_readString.readOptional draft

theorem read_succ (levels : Nat) :
    read (levels + 1) = Record.readOver "Element" (some (record levels (within read levels))) := by
  cases levels <;> rfl

theorem grammatical_read (levels : Nat) : Grammatical (read levels) := by
  induction levels using Nat.strongRecOn with
  | _ levels ih =>
    cases levels with
    | zero => exact fun _ _ _ h => absurd h Record.readOver_none
    | succ levels =>
      have inside : ∀ item ∈ within read levels, Grammatical item := by
        cases levels with
        | zero => simp [within]
        | succ levels => simpa [within] using ih levels (by omega)
      intro text e rest h
      rw [read_succ] at h ⊢
      obtain ⟨t, woven, last, drafts, finished⟩ := yields_readOver (fieldsGrammatical_record inside) _ _ _ h
      exact ⟨t, woven, drafts.takes finished⟩

theorem grammatical_within (levels : Nat) : ∀ item ∈ within read levels, Grammatical item := by
  cases levels with
  | zero => simp [within]
  | succ levels => simpa [within] using grammatical_read levels

theorem takes_read_iff : Takes (read (levels + 1)) t e ↔
    ∃ last, (record levels (within read levels)).Drafts t last ∧ last.element = e := by
  rw [read_succ]
  constructor
  · intro takes
    have grammatical : FieldsGrammatical (record levels (within read levels)).fields :=
      fieldsGrammatical_record (grammatical_within levels)
    obtain ⟨last, drafts, finished⟩ := takes.belongs (yields_readOver grammatical)
    exact ⟨last, drafts, Except.ok.inj finished⟩
  · rintro ⟨last, drafts, rfl⟩
    exact drafts.takes rfl

theorem not_takes_read_zero : ¬Takes (read 0) t e := by
  intro takes
  have none : Yields (read 0) fun _ _ => False := fun _ _ _ h => absurd h Record.readOver_none
  exact takes.belongs none

theorem takes_readAttributes (takes : Takes (Value.read levels) t v) :
    Takes (readAttributes levels) t (Attributes.ofValue v) :=
  takes.map Attributes.ofValue

end Reading

section Drafted

variable {levels : Nat} {child : Option (Reader Element)} {before last : Draft} {members members' : List (Name × Tree)}

/-- What each place of a draft holds before and after these members have been read into it. -/
@[mk_iff] structure Drafted (levels : Nat) (child : Option (Reader Element)) (before : Draft)
    (members : List (Name × Tree)) (last : Draft) : Prop where
  kind : Settles (readOptional (readChoice kindChoices levels)) before.kind (named "type" members) last.kind
  name : Settles readString before.name (named "name" members) last.name
  attributes : Settles (readAttributes levels) before.attributes (named "attributes" members) last.attributes
  children : Settles (readOptional (readList child)) before.children (named "elements" members) last.children
  text : Settles (readOptional readString) before.text (named "text" members) last.text

theorem drafted_nil_iff : Drafted levels child before [] last ↔ before = last := by
  simp only [drafted_iff, named, List.filterMap_nil, settles_nil_iff]
  cases before
  cases last
  simp

theorem find?_fields_eq_none {s : String} (unknown : s ∉ fieldNames) :
    (record levels child).fields.find? (·.name = s) = none := by
  simp only [fieldNames, List.mem_cons, List.not_mem_nil, or_false, not_or] at unknown
  obtain ⟨kind, name, attributes, elements, text⟩ := unknown
  simp [record, Field.of, Ne.symm kind, Ne.symm name, Ne.symm attributes, Ne.symm elements, Ne.symm text]

theorem drafted_inserted_iff {front behind : List (Name × Tree)} {name : Name} {s : String} {t : Tree}
    (value : name.value? = some s) (unknown : s ∉ fieldNames) :
    Drafted levels child before (front ++ (name, t) :: behind) last ↔
      Drafted levels child before (front ++ behind) last := by
  have passed : ∀ field ∈ fieldNames, named field (front ++ (name, t) :: behind) = named field (front ++ behind) := by
    intro field known
    rw [named_append, named_append, named_cons_of_ne value]
    rintro rfl
    exact unknown known
  simp only [fieldNames, List.forall_mem_cons] at passed
  simp only [drafted_iff, passed]

theorem Drafted.perm (drafted : Drafted levels child before members last) (perm : members.Perm members') :
    Drafted levels child before members' last where
  kind := drafted.kind.perm (perm.filterMap _)
  name := drafted.name.perm (perm.filterMap _)
  attributes := drafted.attributes.perm (perm.filterMap _)
  children := drafted.children.perm (perm.filterMap _)
  text := drafted.text.perm (perm.filterMap _)

theorem Drafted.replace {front behind : List (Name × Tree)} {name : Name} {t t' : Tree}
    (drafted : Drafted levels child before (front ++ (name, t) :: behind) last) (value : name.value? = some "elements")
    (takes : ∀ x, Takes (readOptional (readList child)) t x → Takes (readOptional (readList child)) t' x) :
    Drafted levels child before (front ++ (name, t') :: behind) last := by
  obtain ⟨kind, name, attributes, children, text⟩ := drafted
  simp only [named_append, named_cons_self value, named_cons_of_ne value, ne_eq, String.reduceEq,
    not_false_eq_true] at kind name attributes children text
  simp only [drafted_iff, named_append, named_cons_self value, named_cons_of_ne value, ne_eq, String.reduceEq,
    not_false_eq_true]
  exact ⟨kind, name, attributes, children.replace takes, text⟩

theorem fed_iff : Fed (record levels child).fields before members last ↔
    (∀ m ∈ members, ∃ s, m.1.Decodes s) ∧ Drafted levels child before members last := by
  induction members generalizing before with
  | nil =>
    rw [drafted_nil_iff]
    constructor
    · rintro ⟨⟩
      exact ⟨List.forall_mem_nil _, rfl⟩
    · rintro ⟨-, rfl⟩
      exact .nil
  | cons m members ih =>
    obtain ⟨name, t⟩ := m
    rw [List.forall_mem_cons]
    by_cases decoded : ∃ s, name.Decodes s
    · have ⟨s, decodes⟩ := decoded
      have value := Name.value?_eq_some_iff.2 decodes
      by_cases known : s ∈ fieldNames
      · simp only [fieldNames, List.mem_cons, List.not_mem_nil, or_false] at known
        -- The value comes into the place of its name, and the four other places do not see it.
        obtain rfl | rfl | rfl | rfl | rfl := known
        all_goals
          rw [fed_cons_iff_of decodes rfl (by simp)]
          simp only [ih, drafted_iff, named_cons_self value, named_cons_of_ne value, settles_cons_iff, decoded,
            true_and, ne_eq, String.reduceEq, not_false_eq_true]
          tauto
      · have passed : Drafted levels child before ([] ++ (name, t) :: members) last ↔
            Drafted levels child before ([] ++ members) last := drafted_inserted_iff value known
        rw [List.nil_append, List.nil_append] at passed
        rw [fed_cons_iff_unknown decodes (find?_fields_eq_none known), ih, passed]
        simp only [decoded, true_and]
    · constructor
      · exact fun fed => absurd (fed.exists_decodes _ List.mem_cons_self) decoded
      · exact fun ⟨⟨all, _⟩, _⟩ => absurd all decoded

end Drafted

section Listed

variable {β : Type} {value : Reader β} {slot : Option β} {default : β} {levels : Nat} {child : Option (Reader Element)}
  {draft last : Draft} {e : Element} {members : List (Name × Tree)} {field : String} {names : List String}
  {item : Tree} {items : List Tree}

theorem takes_of_shows (shows : Shows members field item) (settles : Settles value none (named field members) slot)
    (absent : Takes value (filler field) default) : Takes value item (slot.getD default) := by
  rcases shows with mem | ⟨empty, rfl⟩
  · generalize named field members = ts at mem settles
    cases settles with
    | rest => cases mem
    | value takes => exact List.mem_singleton.1 mem ▸ takes
  · rw [empty, settles_nil_iff] at settles
    exact settles ▸ absent

theorem exists_placed_of_listed {fields : List (Json.Field Draft)} {get : Draft → Option β} {set : Draft → β → Draft}
    (shown : Listed members (field :: names) items) (settles : Settles value none (named field members) slot)
    (absent : Takes value (filler field) default) (free : ∀ field ∈ fields, field.required = false)
    (ends : (∀ name ∈ field :: names, named name members = []) → draft.element = e)
    (goesOn : ∀ later, Listed members names later →
      ∃ last, Placed fields (set draft (slot.getD default)) later last ∧ last.element = e) :
    ∃ last, Placed (.of field false get set value :: fields) draft items last ∧ last.element = e := by
  cases shown with
  | rest none => exact ⟨draft, .rest (List.forall_mem_cons.2 ⟨rfl, free⟩), ends none⟩
  | item shows later =>
    obtain ⟨last, placed, same⟩ := goesOn _ later
    exact ⟨last, .item ((takes_of_shows shows settles absent).map (set draft)) placed, same⟩

theorem takes_empty_string : Takes readString (filler "name") "" := by
  refine (takes_scalar rfl fun text rest shape _ => ?_ : Takes Head.read (filler "name") (.string "")).readString
  have closed : stringBody ('"' :: rest) = .ok ("", rest) := rfl
  simp [Head.read, shape, closed, Except.map]

theorem takes_null_attributes : Takes (readAttributes levels) .null .empty := by
  refine takes_readAttributes (v := .null) fun text rest woven follows => ?_
  have head := takes_null_head text rest woven follows
  cases levels <;> simp only [Value.read, Value.readOver, head] <;> rfl

theorem Drafted.exists_placed (drafted : Drafted levels child {} members last)
    (shown : Listed members fieldNames items) :
    ∃ last', Placed (record levels child).fields {} items last' ∧ last'.element = last.element := by
  have ⟨kind, name, attributes, children, text⟩ := drafted
  have untouched {γ : Type} {reader : Reader γ} {slot : Option γ} {field : String}
      (settles : Settles reader none (named field members) slot) (none : named field members = []) : slot = .none := by
    rw [none, settles_nil_iff] at settles
    exact settles.symm
  -- One step for each field; an array may end before any of them, and then nothing is left to read.
  refine exists_placed_of_listed shown kind takes_null (by simp [Field.of]) ?_ fun _ shown =>
    exists_placed_of_listed shown name takes_empty_string (by simp [Field.of]) ?_ fun _ shown =>
    exists_placed_of_listed shown attributes takes_null_attributes (by simp [Field.of]) ?_ fun _ shown =>
    exists_placed_of_listed shown children takes_null (by simp [Field.of]) ?_ fun _ shown =>
    exists_placed_of_listed shown text takes_null (List.forall_mem_nil _) ?_ fun _ shown => ?_
  rotate_left 5
  · cases shown
    exact ⟨_, .rest (List.forall_mem_nil _), rfl⟩
  all_goals
    intro none
    simp only [List.forall_mem_cons] at none
    simp [Draft.element, untouched kind, untouched name, untouched attributes, untouched children, untouched text, none]

end Listed

section Children

variable {levels : Nat} {child : Option (Reader Element)} {t t' : Tree} {before after : List Tree}

theorem forall₂_middle_iff {P : Tree → Element → Prop} {es : List Element} : List.Forall₂ P (before ++ t :: after) es ↔
    ∃ front e behind, es = front ++ e :: behind ∧ front.length = before.length ∧
      List.Forall₂ P before front ∧ P t e ∧ List.Forall₂ P after behind := by
  constructor
  · intro each
    induction before generalizing es with
    | nil =>
      obtain _ | ⟨own, others⟩ := each
      exact ⟨[], _, _, rfl, rfl, .nil, own, others⟩
    | cons _ _ ih =>
      obtain _ | ⟨first, each⟩ := each
      obtain ⟨front, e, behind, rfl, length, earlier, own, others⟩ := ih each
      exact ⟨_ :: front, e, behind, rfl, congrArg (· + 1) length, .cons first earlier, own, others⟩
  · rintro ⟨front, e, behind, rfl, -, earlier, own, others⟩
    exact List.rel_append earlier (.cons own others)

theorem takes_children_iff (grammatical : ∀ item ∈ child, Grammatical item) {x : Option (List Element)} :
    Takes (readOptional (readList child)) (.array (before ++ t :: after)) x ↔
      ∃ item ∈ child, ∃ front e behind, x = some (front ++ e :: behind) ∧ front.length = before.length ∧
        List.Forall₂ (Takes item) before front ∧ Takes item t e ∧ List.Forall₂ (Takes item) after behind := by
  have notNull : ¬(Tree.array (before ++ t :: after)).Starts 'n' := by simp [Tree.Starts, Tree.tokens]
  constructor
  · intro takes
    cases child with
    | none =>
      have never : Yields (readList (none : Option (Reader Element))) fun _ _ => False := by
        intro _ _ _ h
        obtain ⟨_, _, ⟨⟩, -⟩ := readList_eq_ok h
      obtain ⟨⟨⟩, -⟩ | ⟨_, -, ⟨⟩, -⟩ := takes.belongs (yields_readOptional never)
    | some item =>
      obtain ⟨⟨⟩, -⟩ | ⟨es, rfl, ⟨ts, same, each⟩, -⟩ :=
        takes.belongs (yields_readOptional (yields_readList (grammatical item rfl)))
      cases same
      obtain ⟨front, e, behind, rfl, parts⟩ := forall₂_middle_iff.1 each
      exact ⟨item, rfl, front, e, behind, rfl, parts⟩
  · rintro ⟨item, known, front, e, behind, rfl, parts⟩
    obtain rfl := Option.mem_def.1 known
    exact (takes_readList (forall₂_middle_iff.2 ⟨front, e, behind, rfl, parts⟩)).readOptional notNull

theorem takes_children_replace (grammatical : ∀ item ∈ child, Grammatical item)
    (inside : ∀ item ∈ child, ∀ e, Takes item t e → Takes item t' e) {x : Option (List Element)}
    (takes : Takes (readOptional (readList child)) (.array (before ++ t :: after)) x) :
    Takes (readOptional (readList child)) (.array (before ++ t' :: after)) x := by
  obtain ⟨item, known, front, e, behind, same, length, earlier, own, others⟩ := (takes_children_iff grammatical).1 takes
  exact (takes_children_iff grammatical).2
    ⟨item, known, front, e, behind, same, length, earlier, inside item known e own, others⟩

theorem takes_within (inside : ∀ levels e, Takes (read levels) t e → Takes (read levels) t' e) :
    ∀ item ∈ within read levels, ∀ e, Takes item t e → Takes item t' e := by
  cases levels with
  | zero => simp [within]
  | succ levels => simpa [within] using inside levels

end Children

section Relaying

variable {levels : Nat} {e : Element} {t t' : Tree}

theorem takes_read_of_drafts
    (drafts : ∀ levels last, (record levels (within read levels)).Drafts t last →
      ∃ last', (record levels (within read levels)).Drafts t' last' ∧ last'.element = last.element) :
    ∀ levels e, Takes (read levels) t e → Takes (read levels) t' e := by
  rintro (_ | levels) e takes
  · exact absurd takes not_takes_read_zero
  · obtain ⟨last, drafted, rfl⟩ := takes_read_iff.1 takes
    exact takes_read_iff.2 (drafts levels last drafted)

theorem Relaid.takes (relaid : Relaid t t') : ∀ levels e, Takes (read levels) t e → Takes (read levels) t' e := by
  induction relaid with
  | refl => exact fun _ _ takes => takes
  | trans _ _ first second => exact fun levels e takes => second levels e (first levels e takes)
  | permuted perm =>
    refine takes_read_of_drafts ?_
    rintro levels last ⟨fed⟩
    obtain ⟨decodes, drafted⟩ := fed_iff.1 fed
    exact ⟨last, .object (fed_iff.2 ⟨fun m mem => decodes m (perm.mem_iff.2 mem), drafted.perm perm⟩), rfl⟩
  | inserted value read unknown =>
    refine takes_read_of_drafts ?_
    rintro levels last ⟨fed⟩
    obtain ⟨decodes, drafted⟩ := fed_iff.1 fed
    refine ⟨last, .object (fed_iff.2 ⟨?_, (drafted_inserted_iff read unknown).2 drafted⟩), rfl⟩
    rw [List.forall_mem_append] at decodes
    rw [List.forall_mem_append, List.forall_mem_cons]
    exact ⟨decodes.1, ⟨_, Name.value?_eq_some_iff.1 read⟩, decodes.2⟩
  | listed shown =>
    refine takes_read_of_drafts ?_
    rintro levels last ⟨fed⟩
    obtain ⟨last', placed, same⟩ := (fed_iff.1 fed).2.exists_placed shown
    exact ⟨last', .array placed, same⟩
  | inside elements _ ih =>
    refine takes_read_of_drafts ?_
    rintro levels last ⟨fed⟩
    obtain ⟨decodes, drafted⟩ := fed_iff.1 fed
    refine ⟨last, .object (fed_iff.2 ⟨?_, drafted.replace elements fun x =>
      takes_children_replace (grammatical_within levels) (takes_within ih)⟩), rfl⟩
    rw [List.forall_mem_append, List.forall_mem_cons] at decodes ⊢
    exact decodes
  | @insideArray child child' kind name attributes before after behind _ ih =>
    refine takes_read_of_drafts ?_
    rintro levels last (_ | placed)
    have fields : Placed (record levels (within read levels)).fields {}
      ([kind, name, attributes] ++ .array (before ++ child :: after) :: behind) last := placed
    refine ⟨last, .array (fields.replace ?_), rfl⟩
    rintro _ ⟨⟩ draft next takes
    obtain ⟨x, taken, rfl⟩ := (takes_of_iff (by simp)).1 takes
    have taken := takes_children_replace (grammatical_within levels) (takes_within ih) taken
    exact (takes_of_iff (by simp)).2 ⟨x, taken, rfl⟩

/-- What a text is read as does not depend on how it is laid out: an accepted text spells a tree, and every text that
spells a relaid tree, with whatever blanks, is accepted as the same element. -/
theorem parse_relaid {text : String} (accepted : parse text = .ok e) :
    (∃ t : Tree, t.Spells text.toList) ∧
      ∀ t t' : Tree, ∀ text' : String, t.Spells text.toList → Relaid t t' → t'.Spells text'.toList →
        parse text' = .ok e := by
  obtain ⟨t, spells, takes⟩ := (grammatical_read maxLevels).readAll_eq_ok_iff.1 accepted
  refine ⟨⟨t, spells⟩, fun s t' text' same relaid spells' => ?_⟩
  obtain rfl := spells.unique same
  exact (grammatical_read maxLevels).readAll_eq_ok_iff.2 ⟨t', spells', relaid.takes maxLevels e takes⟩

/-- A paragraph inside becomes the array of its fields, and a member of another name comes before it. -/
theorem parse_relaid_paragraph :
    parse "\x7b\"elements\":[\x7b\"name\":\"p\"\x7d]\x7d" = .ok (document [{ name := "p" }]) ∧
      parse " \x7b\"x\":[[]],\"elements\":[[null,\"p\"]]\x7d" = .ok (document [{ name := "p" }]) := by
  have accepted : parse "\x7b\"elements\":[\x7b\"name\":\"p\"\x7d]\x7d" = .ok (document [{ name := "p" }]) :=
    (parse_line (document [{ name := "p" }])).trans (if_pos (by decide))
  refine ⟨accepted, ?_⟩
  let elements : Name := ⟨"elements".toList, .of_plain rfl⟩
  let name : Name := ⟨"name".toList, .of_plain rfl⟩
  let other : Name := ⟨"x".toList, .of_plain rfl⟩
  let p : Tree := .scalar ⟨"\"p\"".toList, .string (.of_plain rfl : InString "p".toList)⟩
  have listed : Relaid (.object [(name, p)]) (.array [.null, p]) := by
    refine .listed (.item (.inr ⟨by decide, rfl⟩) (.item (.inl ?_) (.rest ?_)))
    · exact List.mem_singleton_self p
    · decide
  have relaid := @Relaid.inside _ _ [] [] [] [] elements rfl listed
  have inserted :=
    @Relaid.inserted [] [(elements, .array [.array [.null, p]])] other "x" (.array [.array []]) rfl (by decide)
  refine (parse_relaid accepted).2 _ _ _ ?_ (.trans relaid inserted) ?_
  · exact Tree.spells_flatten _
  · have blank : Blank [' '] := by simp [Blank, isSpace]
    exact ⟨[], List.forall_mem_nil _, (woven_flatten _).blank_append (Tree.tokens_ne_nil _) blank⟩

end Relaying

end SpeechMarkup.Element
