import SpeechMarkup.Proofs.Configuration
import SpeechMarkup.Proofs.MemberOrder
import SpeechMarkup.Proofs.ValueTree

/-! Reports, their records and configurations in texts. What is written for one of them is read back from the text on
one line and from the indented one, whatever the order of the members in the objects: the fields of a record do not see
each other, so the draft of a record is the same however its members come. -/

namespace SpeechMarkup

namespace Json

section Independent

variable {δ : Type} {fields : List (Field δ)} {draft last : δ} {members members' : List (Name × Tree)} {f g : Field δ}

/-- What is read into the first field is seen by the second one neither in its place nor in the draft, so that they may
be read the other way round. -/
structure Field.Apart (f g : Field δ) : Prop where
  unseen : ∀ {draft next : δ} {t : Tree}, Takes (f.read draft) t next → g.isSet next = g.isSet draft
  swapped : ∀ {draft between next : δ} {t u : Tree}, Takes (f.read draft) t between → Takes (g.read between) u next →
    ∃ other, Takes (g.read draft) u other ∧ Takes (f.read other) t next

structure Independent (fields : List (Field δ)) : Prop where
  filled : ∀ f ∈ fields, ∀ {draft next : δ} {t : Tree}, Takes (f.read draft) t next → f.isSet next = true
  apart : ∀ f ∈ fields, ∀ g ∈ fields, f.name ≠ g.name → f.Apart g

section Of

variable {β γ : Type} {name name' : String} {required required' : Bool} {get : δ → Option β} {set : δ → β → δ}
  {get' : δ → Option γ} {set' : δ → γ → δ} {value : Reader β} {value' : Reader γ}

theorem isSet_of_takes {next : δ} {t : Tree} (injective : ∀ draft x y, set draft x = set draft y → x = y)
    (own : ∀ draft x, get (set draft x) = some x)
    (takes : Takes ((Field.of name required get set value).read draft) t next) :
    (Field.of name required get set value).isSet next = true := by
  obtain ⟨x, -, rfl⟩ := (takes_of_iff (injective draft)).1 takes
  simp [Field.of, own]

theorem apart_of (injective : ∀ draft x y, set draft x = set draft y → x = y)
    (injective' : ∀ draft x y, set' draft x = set' draft y → x = y)
    (unseen : ∀ draft x, get' (set draft x) = get' draft)
    (commute : ∀ draft x y, set' (set draft x) y = set (set' draft y) x) :
    (Field.of name required get set value).Apart (.of name' required' get' set' value') where
  unseen := by
    intro draft next t takes
    obtain ⟨x, -, rfl⟩ := (takes_of_iff (injective draft)).1 takes
    simp [Field.of, unseen]
  swapped := by
    intro draft between next t u first second
    obtain ⟨x, takes, rfl⟩ := (takes_of_iff (injective draft)).1 first
    obtain ⟨y, takes', rfl⟩ := (takes_of_iff (injective' _)).1 second
    refine ⟨set' draft y, (takes_of_iff (injective' draft)).2 ⟨y, takes', rfl⟩, ?_⟩
    exact (takes_of_iff (injective _)).2 ⟨x, takes, commute draft x y⟩

end Of

theorem Fed.swap (independent : Independent fields) {m n : Name × Tree}
    (fed : Fed fields draft (m :: n :: members) last) : Fed fields draft (n :: m :: members) last := by
  cases fed with
  | unknown decodes unknown later =>
    cases later with
    | unknown decodes' unknown' later => exact .unknown decodes' unknown' (.unknown decodes unknown later)
    | field decodes' known' isOpen takes later =>
      exact .field decodes' known' isOpen takes (.unknown decodes unknown later)
  | @field _ between _ _ s _ _ f decodes known isOpen takes later =>
    cases later with
    | unknown decodes' unknown' later => exact .unknown decodes' unknown' (.field decodes known isOpen takes later)
    | @field _ next _ _ s' _ _ g decodes' known' isOpen' takes' later =>
      have mem := List.mem_of_find?_eq_some known
      have mem' := List.mem_of_find?_eq_some known'
      have named : f.name = s := by simpa using List.find?_some known
      have named' : g.name = s' := by simpa using List.find?_some known'
      have other : f.name ≠ g.name := by
        intro same
        rw [← named, same, named', known'] at known
        cases known
        rw [independent.filled f mem takes] at isOpen'
        cases isOpen'
      obtain ⟨filled, second, first⟩ := (independent.apart f mem g mem' other).swapped takes takes'
      have unset : g.isSet draft = false := (independent.apart f mem g mem' other).unseen takes ▸ isOpen'
      have unset' : f.isSet filled = false :=
        ((independent.apart g mem' f mem other.symm).unseen second).trans isOpen
      exact .field decodes' known' unset second (.field decodes known unset' first later)

/-- Where the fields do not see each other, members may come in any order. -/
theorem Fed.perm (independent : Independent fields) (fed : Fed fields draft members last)
    (perm : members.Perm members') : Fed fields draft members' last := by
  induction perm generalizing draft with
  | nil => exact fed
  | swap => exact fed.swap independent
  | trans _ _ first second => exact second (first fed)
  | cons m _ ih =>
    cases fed with
    | unknown decodes unknown later => exact .unknown decodes unknown (ih later)
    | field decodes known isOpen takes later => exact .field decodes known isOpen takes (ih later)

end Independent

section Scalars

variable {α : Type} {s : String}

theorem takes_bool (b : Bool) : Takes Head.read (.scalar (.ofBool b)) (.bool b) := by
  cases b <;> exact takes_scalar rfl fun text rest shape _ => by simp [Head.read, shape, word, Except.map]

theorem takes_string (s : String) : Takes Head.read (Value.string s).tree (.string s) := by
  refine takes_scalar rfl fun text rest shape _ => ?_
  rw [List.append_assoc, List.singleton_append] at shape
  simp [Head.read, shape, Name.decodes_ofString s rest, Except.map]

theorem takes_readString (s : String) : Takes readString (Value.string s).tree s :=
  (takes_string s).readString

theorem takes_readOptional (s : String) : Takes (readOptional readString) (Value.string s).tree (some s) := by
  refine (takes_readString s).readOptional ?_
  simp [Tree.Starts, Value.tree, Tree.tokens, Name.scalar, Name.token]

theorem takes_readChoice {choices : List (String × α)} {x : α} (levels : Nat) (chosen : choose choices s = .ok x) :
    Takes (readChoice choices levels) (Value.string s).tree x :=
  takes_readChoice_string (Name.decodes_ofString s) chosen

theorem takes_readBool (b : Bool) : Takes readBool (Value.bool b).tree b := by
  have head : Takes Head.read (Value.bool b).tree (.bool b) := by
    cases b <;> exact takes_scalar rfl fun text rest shape _ => by simp [Head.read, shape, word, Except.map]
  intro text rest woven follows
  rw [readBool, head text rest woven follows]
  rfl

end Scalars

section Records

variable {δ α β : Type} {fields : List (Field δ)} {record : Record δ α} {draft last : δ} {a : α}
  {ms ns : List (String × Value)}

open Value (memberTree)

theorem fed_member {name title : String} {required : Bool} {get : δ → Option β} {set : δ → β → δ} {value : Reader β}
    {x : β} {v : Value} {later : List (Name × Tree)}
    (known : fields.find? (·.name = name) = some (.of title required get set value)) (isOpen : get draft = none)
    (takes : Takes value v.tree x) (fed : Fed fields (set draft x) later last) :
    Fed fields draft (memberTree (name, v) :: later) last :=
  .field (Name.decodes_ofString name) known (by simp [Field.of, isOpen]) (takes.map (set draft)) fed

def SameMember (m n : String × Value) : Prop :=
  n.1 = m.1 ∧ m.2.Same n.2

theorem eq_of_same_string {s : String} {v : Value} (same : (Value.string s).Same v) : v = .string s := by
  cases same
  rfl

theorem eq_of_sameMember (strings : ∀ m ∈ ms, ∃ s, m.2 = .string s) (each : List.Forall₂ SameMember ms ns) :
    ns = ms := by
  induction each with
  | nil => rfl
  | @cons m n ms ns same _ ih =>
    obtain ⟨⟨s, string⟩, others⟩ := List.forall_mem_cons.1 strings
    obtain ⟨name, v⟩ := m
    obtain ⟨name', w⟩ := n
    obtain ⟨rfl : name' = name, same : v.Same w⟩ := same
    obtain rfl : v = .string s := string
    rw [eq_of_same_string same, ih others]

theorem exists_perm_of_same (same : (Value.object ms).Same (.object ns)) :
    ∃ ns', ns.Perm ns' ∧ List.Forall₂ SameMember ms ns' := by
  cases same with
  | object distinct names each =>
    have named : List.Forall₂ (fun n (name : String) => n.1 = name) ns (ns.map Prod.fst) := by
      rw [List.forall₂_map_right_iff, List.forall₂_same]
      exact fun _ _ => rfl
    have moved : Relation.Comp (List.Forall₂ fun n name => n.1 = name) List.Perm ns (ms.map Prod.fst) :=
      ⟨_, named, names.symm⟩
    rw [List.forall₂_comp_perm_eq_perm_comp_forall₂] at moved
    obtain ⟨ns', perm, ordered⟩ := moved
    rw [List.forall₂_map_right_iff] at ordered
    refine ⟨ns', perm, List.forall₂_iff_get.2 ⟨ordered.length_eq.symm, fun i hi hi' => ?_⟩⟩
    have name := (List.forall₂_iff_get.1 ordered).2 i hi' hi
    refine ⟨name, each _ _ _ (List.get_mem ms ⟨i, hi⟩) ?_⟩
    rw [← name]
    exact perm.mem_iff.2 (List.get_mem ns' ⟨i, hi'⟩)

theorem Record.takes_of_same {title : String} {v : Value} (independent : Independent record.fields)
    (same : (Value.object ms).Same v)
    (fed : ∀ ns, List.Forall₂ SameMember ms ns →
      ∃ last, Fed record.fields record.start (ns.map memberTree) last ∧ record.finish last = .ok a) :
    Takes (Record.readOver title (some record)) v.tree a := by
  obtain ⟨ns, rfl⟩ : ∃ ns, v = .object ns := by
    cases same
    exact ⟨_, rfl⟩
  obtain ⟨ns', perm, each⟩ := exists_perm_of_same same
  obtain ⟨last, fed, finished⟩ := fed ns' each
  rw [Value.tree, Value.memberTrees_eq_map]
  exact (Drafts.object (fed.perm independent (perm.map memberTree).symm)).takes finished

end Records

end Json

open Json Value

section Target

variable {levels : Nat}

theorem Platform.takes_read (p : Platform) : Takes Platform.read p.toValue.tree p := by
  have takes := (takes_readString p.name).map Platform.ofName
  rwa [Platform.ofName_name] at takes

theorem Locale.takes_read (l : Locale) : Takes (Locale.read levels) l.toValue.tree l :=
  takes_readChoice levels (by cases l <;> rfl)

theorem FailureMode.takes_read (mode : FailureMode) :
    Takes (readChoice FailureMode.choices levels) mode.toValue.tree mode :=
  takes_readChoice levels (by cases mode <;> rfl)

end Target

namespace Violation

variable {levels : Nat}

theorem independent_fields : Independent (record levels).fields where
  filled := by
    intro f mem
    simp only [record, List.mem_cons, List.not_mem_nil, or_false] at mem
    rcases mem with rfl | rfl | rfl | rfl <;> exact isSet_of_takes (by simp) fun _ _ => rfl
  apart := by
    intro f mem g mem' other
    simp only [record, List.mem_cons, List.not_mem_nil, or_false] at mem mem'
    rcases mem with rfl | rfl | rfl | rfl <;> rcases mem' with rfl | rfl | rfl | rfl <;>
      first
      | exact absurd rfl other
      | exact apart_of (by simp) (by simp) (fun _ _ => rfl) fun _ _ _ => rfl

theorem takes_read (v : Violation) {w : Value} (same : v.toValue.Same w) : Takes (read (levels + 1)) w.tree v := by
  obtain ⟨tag, attr, value⟩ := v
  refine Record.takes_of_same independent_fields same fun ns each => ?_
  obtain rfl := eq_of_sameMember (by cases attr <;> cases value <;> simp) each
  refine ⟨⟨some (), some tag, attr.map some, value.map some⟩, ?_, by cases attr <;> cases value <;> rfl⟩
  refine fed_member rfl rfl (takes_readChoice levels rfl) (fed_member rfl rfl (takes_readString tag) ?_)
  cases attr with
  | none =>
    cases value with
    | none => exact .nil
    | some value => exact fed_member rfl rfl (takes_readOptional value) .nil
  | some attr =>
    refine fed_member rfl rfl (takes_readOptional attr) ?_
    cases value with
    | none => exact .nil
    | some value => exact fed_member rfl rfl (takes_readOptional value) .nil

end Violation

namespace Config

variable {levels : Nat}

theorem independent_fields : Independent (record levels).fields where
  filled := by
    intro f mem
    simp only [record, List.mem_cons, List.not_mem_nil, or_false] at mem
    rcases mem with rfl | rfl | rfl <;> exact isSet_of_takes (by simp) fun _ _ => rfl
  apart := by
    intro f mem g mem' other
    simp only [record, List.mem_cons, List.not_mem_nil, or_false] at mem mem'
    rcases mem with rfl | rfl | rfl <;> rcases mem' with rfl | rfl | rfl <;>
      first
      | exact absurd rfl other
      | exact apart_of (by simp) (by simp) (fun _ _ => rfl) fun _ _ _ => rfl

theorem takes_read (config : Config) {w : Value} (same : config.toValue.Same w) :
    Takes (read (levels + 1)) w.tree config := by
  refine Record.takes_of_same independent_fields same fun ns each => ?_
  obtain rfl := eq_of_sameMember (by simp [Platform.toValue, Locale.toValue, FailureMode.toValue]) each
  exact ⟨_, fed_member rfl rfl config.platform.takes_read (fed_member rfl rfl config.locale.takes_read
    (fed_member rfl rfl config.failureMode.takes_read .nil)), rfl⟩

theorem distinct_toValue (config : Config) : config.toValue.Distinct :=
  .object (by simp) (by simp [Platform.toValue, Locale.toValue, FailureMode.toValue, Distinct.string])

end Config

namespace Report

variable {levels : Nat}

theorem independent_fields : Independent (record levels).fields where
  filled := by
    intro f mem
    simp only [record, List.mem_cons, List.not_mem_nil, or_false] at mem
    rcases mem with rfl | rfl | rfl | rfl <;> exact isSet_of_takes (by simp) fun _ _ => rfl
  apart := by
    intro f mem g mem' other
    simp only [record, List.mem_cons, List.not_mem_nil, or_false] at mem mem'
    rcases mem with rfl | rfl | rfl | rfl <;> rcases mem' with rfl | rfl | rfl | rfl <;>
      first
      | exact absurd rfl other
      | exact apart_of (by simp) (by simp) (fun _ _ => rfl) fun _ _ _ => rfl

theorem takes_violations (violations : List Violation) {w : Value}
    (same : (Value.array (violations.map Violation.toValue)).Same w) :
    Takes (readList (within Violation.read (levels + 2))) w.tree violations := by
  cases same with
  | @array _ ys length each =>
    rw [tree, itemTrees_eq_map]
    refine takes_readList (List.forall₂_map_left_iff.2 (List.forall₂_iff_get.2 ⟨by simpa using length.symm, ?_⟩))
    intro i hi hi'
    refine Violation.takes_read _ (each i _ _ ?_ (List.getElem?_eq_getElem hi))
    rw [List.getElem?_map, List.getElem?_eq_getElem hi']
    rfl

theorem takes_read (report : Report) {w : Value} (same : report.toValue.Same w) :
    Takes (read (levels + 3)) w.tree report := by
  refine Record.takes_of_same independent_fields same fun ns each => ?_
  obtain ⟨⟨_, valid⟩, _, ⟨rfl, sameValid⟩, behindValid, rfl⟩ := List.forall₂_cons_left_iff.1 each
  obtain ⟨⟨_, violations⟩, _, ⟨rfl, sameViolations⟩, behindViolations, rfl⟩ := List.forall₂_cons_left_iff.1 behindValid
  obtain ⟨⟨_, platform⟩, _, ⟨rfl, samePlatform⟩, behindPlatform, rfl⟩ := List.forall₂_cons_left_iff.1 behindViolations
  obtain ⟨⟨_, locale⟩, _, ⟨rfl, sameLocale⟩, ⟨⟩, rfl⟩ := List.forall₂_cons_left_iff.1 behindPlatform
  obtain rfl : platform = report.platform.toValue := eq_of_same_string samePlatform
  obtain rfl : locale = report.locale.toValue := eq_of_same_string sameLocale
  obtain rfl : valid = .bool report.valid := by
    cases sameValid
    rfl
  exact ⟨_, fed_member rfl rfl (takes_readBool report.valid) (fed_member rfl rfl (takes_violations _ sameViolations)
    (fed_member rfl rfl report.platform.takes_read (fed_member rfl rfl report.locale.takes_read .nil))), rfl⟩

end Report

section Survival

/-- The texts that are written for a value, on one line or indented, with the members of its objects in any order. -/
inductive Json.Value.TextOf (v : Value) : String → Prop where
  | line {w : Value} (same : v.Same w) : TextOf v (String.ofList w.compact)
  | indented {w : Value} (same : v.Same w) (indent : Nat) : TextOf v (String.ofList (w.pretty indent))

/-- What is written is read back: as it is written, with the members in the order of their names, and from every other
text for it. No text stands for two things. -/
structure SurvivesText {α : Type} (write : α → Value) (parse : String → Except ReadError α) : Prop where
  line : ∀ a, parse (String.ofList (write a).compact) = .ok a
  indented : ∀ a indent, parse (String.ofList ((write a).pretty indent)) = .ok a
  sorted : ∀ a indent, parse (String.ofList ((write a).sorted.pretty indent)) = .ok a
  reordered : ∀ a text, (write a).TextOf text → parse text = .ok a
  apart : ∀ a b text, (write a).TextOf text → (write b).TextOf text → a = b

theorem Json.Value.Distinct.same_self {v : Value} (distinct : v.Distinct) : v.Same v := by
  induction distinct with
  | null => exact .null
  | bool b => exact .bool b
  | number n => exact .number n
  | string s => exact .string s
  | array _ ih =>
    refine .array rfl fun i x y hx hy => ?_
    cases hx.symm.trans hy
    exact ih x (List.mem_of_getElem? hx)
  | object names _ ih =>
    refine .object names (.refl _) fun name x y hx hy => ?_
    cases List.inj_on_of_nodup_map names hx hy rfl
    exact ih (name, x) hx

theorem survivesText_of_takes {α : Type} {write : α → Value} {reader : Reader α} (distinct : ∀ a, (write a).Distinct)
    (takes : ∀ a w, (write a).Same w → Takes reader w.tree a) : SurvivesText write (readAll reader) := by
  have back (a : α) (text : String) (written : (write a).TextOf text) : readAll reader text = .ok a := by
    cases written with
    | @line w same => exact (takes a w same).readAll (by rw [String.toList_ofList]; exact w.spells_tree.1)
    | @indented w same indent =>
      exact (takes a w same).readAll (by rw [String.toList_ofList]; exact w.spells_tree.2 indent)
  exact {
    line := fun a => back a _ (.line (distinct a).same_self)
    indented := fun a indent => back a _ (.indented (distinct a).same_self indent)
    sorted := fun a indent => back a _ (.indented (distinct a).same_sorted indent)
    reordered := back
    apart := fun a b text first second => Except.ok.inj ((back a text first).symm.trans (back b text second)) }

/-- Reports, their records and configurations survive their texts. In the text of a record an attribute or a value that
is absent looks like no other one, be that empty or the word `none`. -/
theorem report_survivesText :
    SurvivesText Report.toValue Report.parse ∧ SurvivesText Violation.toValue Violation.parse ∧
    SurvivesText Config.toValue Config.parse ∧
    ∀ (tag shown : String) (other : Option String) (text : String),
      ((Violation.mk tag none other).toValue.TextOf text →
        ¬ (Violation.mk tag (some shown) other).toValue.TextOf text) ∧
      ((Violation.mk tag other none).toValue.TextOf text →
        ¬ (Violation.mk tag other (some shown)).toValue.TextOf text) := by
  have violations : SurvivesText Violation.toValue Violation.parse :=
    survivesText_of_takes Violation.distinct_toValue fun v _ => v.takes_read
  refine ⟨survivesText_of_takes Report.distinct_toValue fun report _ => report.takes_read, violations,
    survivesText_of_takes Config.distinct_toValue fun config _ => config.takes_read,
    fun tag shown other text => ⟨?_, ?_⟩⟩
  · intro absent present
    cases violations.apart _ _ text absent present
  · intro absent present
    cases violations.apart _ _ text absent present

/-- The word `none` is read back with the members in the order of their names, from a text that is not written for a
record without an attribute. -/
theorem report_survivesText_none :
    let v : Violation := ⟨"p", some "none", none⟩
    let w : Value := .object [("attribute", .string "none"), ("tag", .string "p"), ("type", .string "tag")]
    v.toValue.TextOf (String.ofList (w.pretty 0)) ∧ Violation.parse (String.ofList (w.pretty 0)) = .ok v ∧
    ¬ (Violation.mk "p" none none).toValue.TextOf (String.ofList (w.pretty 0)) := by
  intro v w
  have sorted : v.toValue.sorted = w := by
    simp [v, w, Violation.toValue, Violation.typeName, Value.sorted, Value.sortedMembers]
    rfl
  have written : v.toValue.TextOf (String.ofList (w.pretty 0)) :=
    .indented (sorted ▸ (Violation.distinct_toValue v).same_sorted) 0
  obtain ⟨-, violations, -, differ⟩ := report_survivesText
  exact ⟨written, violations.reordered v _ written, fun absent => (differ "p" "none" none _).1 absent written⟩

end Survival

end SpeechMarkup
