import Mathlib.Data.List.Forall2
import SpeechMarkup.Proofs.RecordText
import SpeechMarkup.Proofs.ScalarText

/-! Readers of texts and the trees that the texts spell. What a reader takes off a text is a tree, and off every other
text of this tree it takes the same value: so it does not see the blanks between the tokens. -/

namespace SpeechMarkup.Json

section Openings

def Opens (c : Char) : Prop :=
  isSpace c = false ∧ c ≠ ',' ∧ c ≠ ']' ∧ c ≠ '}'

theorem opens_of_isDigit {c : Char} (digit : c.isDigit = true) : Opens c := by
  have other {d : Char} (h : d.isDigit = false) : c ≠ d := by
    rintro rfl
    exact Bool.false_ne_true (h.symm.trans digit)
  refine ⟨?_, other (by decide), other (by decide), other (by decide)⟩
  simp [isSpace, other]

theorem NumberText.Spells.exists_opening {n : NumberText} {token : List Char} (spells : n.Spells token) :
    ∃ c later, token = c :: later ∧ (c = '-' ∨ c.isDigit = true) := by
  obtain @⟨fraction, exponent, whole, -, -, -⟩ := spells
  obtain ⟨d, later, same, digit⟩ := whole.exists_cons
  cases n.negative with
  | true => exact ⟨'-', _, rfl, .inl rfl⟩
  | false => exact ⟨d, later ++ (fraction ++ exponent), by rw [same]; rfl, .inr digit⟩

theorem IsScalar.exists_opening {token : List Char} (h : IsScalar token) : ∃ c later, token = c :: later ∧ Opens c := by
  cases h with
  | null | true | false | string => exact ⟨_, _, rfl, by simp [Opens, isSpace]⟩
  | number spells =>
    obtain ⟨c, later, same, numeric⟩ := spells.exists_opening
    refine ⟨c, later, same, ?_⟩
    rcases numeric with rfl | digit
    · simp [Opens, isSpace]
    · exact opens_of_isDigit digit

theorem Tree.exists_opening (t : Tree) : ∃ c token tokens, t.tokens = (c :: token) :: tokens ∧ Opens c := by
  cases t with
  | scalar s =>
    obtain ⟨c, later, same, opens⟩ := s.isScalar.exists_opening
    exact ⟨c, later, [], by rw [tokens, same], opens⟩
  | array items => exact ⟨'[', [], _, by rw [tokens], by simp [Opens, isSpace]⟩
  | object members => exact ⟨'{', [], _, by rw [tokens], by simp [Opens, isSpace]⟩

theorem Tree.tokens_ne_nil (t : Tree) : t.tokens ≠ [] := by
  obtain ⟨_, _, _, same, -⟩ := t.exists_opening
  rw [same]
  exact List.cons_ne_nil _ _

theorem Tree.length_lt {t : Tree} {text rest : List Char} (woven : Woven t.tokens text rest) :
    rest.length < text.length := by
  obtain ⟨_, _, _, same, -⟩ := t.exists_opening
  rw [same] at woven
  exact woven.length_lt

theorem Tree.skipSpace {t : Tree} {text rest : List Char} (woven : Woven t.tokens text rest) :
    ∃ c behind, Json.skipSpace text = c :: behind ∧ Opens c ∧ Woven t.tokens (c :: behind) rest := by
  obtain ⟨c, token, tokens, same, opens⟩ := t.exists_opening
  rw [same] at woven ⊢
  obtain ⟨behind, shape, later⟩ := woven.skipSpace opens.1
  have fresh : Woven ((c :: token) :: tokens) ([] ++ (c :: token ++ behind)) rest := .cons (List.forall_mem_nil _) later
  exact ⟨c, token ++ behind, shape, opens, fresh⟩

end Openings

section Steps

variable {first : Bool} {t : Tree} {ts : List Tree} {name : Name} {ms : List (Name × Tree)}
  {text behind value later rest : List Char}

theorem length_skipSpace_le (text : List Char) : (skipSpace text).length ≤ text.length :=
  (List.dropWhile_sublist _).length_le

theorem length_lt_of_skipSpace {c : Char} (shape : skipSpace text = c :: behind) : behind.length < text.length := by
  have := length_skipSpace_le text
  rw [shape, List.length_cons] at this
  omega

theorem woven_singleton {token : List Char} (h : skipSpace text = token ++ rest) : Woven [token] text rest :=
  woven_of_skipSpace h .nil

theorem woven_scalar {s : Scalar} (h : skipSpace text = s.token ++ rest) : Woven (Tree.scalar s).tokens text rest :=
  Tree.tokens.eq_1 s ▸ woven_singleton h

theorem woven_items_nil (h : skipSpace text = ']' :: rest) : Woven (Tree.itemTokens first []) text rest :=
  Tree.itemTokens.eq_1 first ▸ woven_singleton h

theorem woven_members_nil (h : skipSpace text = '}' :: rest) : Woven (Tree.memberTokens first []) text rest :=
  Tree.memberTokens.eq_1 first ▸ woven_singleton h

theorem woven_array {inside : List Char} (bracket : Woven [['[']] text inside)
    (items : Woven (Tree.itemTokens true ts) inside rest) : Woven (Tree.array ts).tokens text rest :=
  Tree.tokens.eq_2 ts ▸ woven_append_iff.2 ⟨inside, bracket, items⟩

theorem woven_object {inside : List Char} (brace : Woven [['{']] text inside)
    (members : Woven (Tree.memberTokens true ms) inside rest) : Woven (Tree.object ms).tokens text rest :=
  Tree.tokens.eq_3 ms ▸ woven_append_iff.2 ⟨inside, brace, members⟩

theorem woven_of_woven_skipSpace {tokens : List (List Char)} (woven : Woven tokens (skipSpace text) rest)
    (nonempty : tokens ≠ []) : Woven tokens text rest := by
  obtain ⟨space, blank, split⟩ := exists_blank text
  rw [split]
  exact woven.blank_append nonempty blank

theorem nextItem_item (woven : Woven (Tree.itemTokens first (t :: ts)) text rest) :
    ∃ item later, nextItem first text = .ok (true, item) ∧ Woven t.tokens item later ∧
      Woven (Tree.itemTokens false ts) later rest ∧ item.length ≤ text.length := by
  rw [Tree.itemTokens] at woven
  obtain ⟨mid, separator, woven⟩ := woven_append_iff.1 woven
  obtain ⟨later, item, woven⟩ := woven_append_iff.1 woven
  obtain ⟨c, behind, shape, ⟨-, -, notEnd, -⟩, item⟩ := Tree.skipSpace item
  have shorter := length_skipSpace_le mid
  rw [shape] at shorter
  refine ⟨c :: behind, later, ?_, item, woven, Nat.le_trans shorter separator.length_le⟩
  cases first with
  | true =>
    cases separator
    simp [nextItem, shape, notEnd]
  | false =>
    obtain ⟨_, comma, ⟨⟩⟩ := separator.skipSpace rfl
    simp [nextItem, comma, shape, notEnd]

theorem nextItem_end (woven : Woven (Tree.itemTokens first []) text rest) :
    ∃ closing, nextItem first text = .ok (false, closing) ∧ closeArray closing = .ok rest := by
  rw [Tree.itemTokens] at woven
  obtain ⟨_, bracket, ⟨⟩⟩ := woven.skipSpace rfl
  exact ⟨']' :: rest, by simp [nextItem, bracket], rfl⟩

theorem woven_of_nextItem_end (h : nextItem first text = .ok (false, behind)) (closed : closeArray behind = .ok rest) :
    Woven (Tree.itemTokens first []) text rest := by
  unfold nextItem at h
  split at h
  · cases h
  next c later shape =>
  split at h
  next bracket =>
    cases h
    subst bracket
    cases closed
    exact woven_items_nil shape
  split at h
  · cases h
  split at h
  · split at h
    · cases h
    split at h <;> cases h
  · cases h

theorem woven_of_nextItem (h : nextItem first text = .ok (true, value)) (item : Woven t.tokens value later)
    (others : Woven (Tree.itemTokens false ts) later rest) : Woven (Tree.itemTokens first (t :: ts)) text rest := by
  rw [Tree.itemTokens, woven_append_iff]
  have woven : Woven (t.tokens ++ Tree.itemTokens false ts) value rest := woven_append_iff.2 ⟨later, item, others⟩
  have nonempty : t.tokens ++ Tree.itemTokens false ts ≠ [] := List.append_ne_nil_of_left_ne_nil t.tokens_ne_nil _
  unfold nextItem at h
  split at h
  · cases h
  next c behind shape =>
  split at h
  · cases h
  split at h
  next isFirst =>
    subst isFirst
    cases h
    rw [← shape] at woven
    exact ⟨text, .nil, woven_of_woven_skipSpace woven nonempty⟩
  next notFirst =>
  split at h
  next comma =>
    subst comma
    split at h
    · cases h
    next shape' =>
    split at h
    · cases h
    cases h
    rw [← shape'] at woven
    simp only [Tree.comma, notFirst]
    exact ⟨behind, woven_singleton shape, woven_of_woven_skipSpace woven nonempty⟩
  · cases h

theorem nextName_member (woven : Woven (Tree.memberTokens first ((name, t) :: ms)) text rest) :
    ∃ behind value later, nextName first text = .ok (true, name.body ++ '"' :: behind) ∧ colon behind = .ok value ∧
      Woven t.tokens value later ∧ Woven (Tree.memberTokens false ms) later rest ∧ value.length < text.length := by
  rw [Tree.memberTokens] at woven
  obtain ⟨mid, separator, woven⟩ := woven_append_iff.1 woven
  obtain ⟨behind, shape, woven⟩ := woven.skipSpace rfl
  rw [List.append_assoc, List.singleton_append] at shape
  obtain ⟨value, mark, woven⟩ := woven.skipSpace rfl
  obtain ⟨later, item, woven⟩ := woven_append_iff.1 woven
  refine ⟨behind, value, later, ?_, by simp [colon, mark], item, woven, ?_⟩
  · cases first with
    | true =>
      cases separator
      simp [nextName, shape]
    | false =>
      obtain ⟨_, comma, ⟨⟩⟩ := separator.skipSpace rfl
      simp [nextName, comma, shape]
  · have first := length_skipSpace_le behind
    have second := length_skipSpace_le mid
    have third := separator.length_le
    simp only [shape, mark, List.length_cons, List.length_append] at first second
    omega

theorem nextName_end (woven : Woven (Tree.memberTokens first []) text rest) :
    nextName first text = .ok (false, rest) := by
  rw [Tree.memberTokens] at woven
  obtain ⟨_, brace, ⟨⟩⟩ := woven.skipSpace rfl
  simp [nextName, brace]

theorem woven_of_nextName_end (h : nextName first text = .ok (false, rest)) :
    Woven (Tree.memberTokens first []) text rest := by
  unfold nextName at h
  split at h
  · cases h
  next c later shape =>
  split at h
  next brace =>
    cases h
    subst brace
    exact woven_members_nil shape
  split at h
  · split at h <;> cases h
  split at h
  · split at h
    · cases h
    split at h
    · cases h
    split at h <;> cases h
  · cases h

theorem woven_of_colon (h : colon text = .ok rest) : Woven [[':']] text rest := by
  unfold colon at h
  split at h
  · cases h
  next c _ shape =>
  split at h
  next isColon =>
    cases h
    subst isColon
    exact woven_singleton shape
  · cases h

theorem woven_of_nextName (h : nextName first text = .ok (true, name.body ++ '"' :: behind))
    (mark : colon behind = .ok value) (item : Woven t.tokens value later)
    (others : Woven (Tree.memberTokens false ms) later rest) :
    Woven (Tree.memberTokens first ((name, t) :: ms)) text rest := by
  have woven : Woven ([':'] :: (t.tokens ++ Tree.memberTokens false ms)) behind rest :=
    woven_append_iff.2 ⟨value, woven_of_colon mark, woven_append_iff.2 ⟨later, item, others⟩⟩
  have named {mid : List Char} (shape : skipSpace mid = '"' :: (name.body ++ '"' :: behind)) :
      Woven (name.token :: [':'] :: (t.tokens ++ Tree.memberTokens false ms)) mid rest :=
    woven_of_skipSpace (by simp [shape, Name.token]) woven
  rw [Tree.memberTokens, woven_append_iff]
  unfold nextName at h
  split at h
  · cases h
  next c mid shape =>
  split at h
  · cases h
  split at h
  next isFirst =>
    subst isFirst
    split at h
    next quote =>
      subst quote
      cases h
      exact ⟨text, .nil, named shape⟩
    · cases h
  next notFirst =>
  split at h
  next comma =>
    subst comma
    split at h
    · cases h
    next shape' =>
    split at h
    next quote =>
      subst quote
      cases h
      simp only [Tree.comma, notFirst]
      exact ⟨mid, woven_singleton shape, named shape'⟩
    split at h <;> cases h
  · cases h

end Steps

section Takes

variable {α β : Type} {reader : Reader α} {t : Tree} {x : α} {s : Scalar} {text rest : List Char}

/-- The reader takes this value off every text that begins with the tree. -/
def Takes (reader : Reader α) (t : Tree) (x : α) : Prop :=
  ∀ text rest, Woven t.tokens text rest → Follows rest → reader text = .ok (x, rest)

/-- What the reader takes off a text is a tree to which the value belongs. -/
def Yields (reader : Reader α) (P : Tree → α → Prop) : Prop :=
  ∀ text x rest, reader text = .ok (x, rest) → ∃ t, Woven t.tokens text rest ∧ P t x

/-- Whatever the reader takes off a text is a tree, and it takes the same value off every text of the tree. -/
def Grammatical (reader : Reader α) : Prop :=
  Yields reader (Takes reader)

theorem Takes.map {reader : Reader α} (takes : Takes reader t x) (f : α → β) :
    Takes (fun text => (reader text).map fun (x, rest) => (f x, rest)) t (f x) := by
  intro text rest woven follows
  simp only [takes text rest woven follows]
  rfl

theorem Grammatical.map {reader : Reader α} (grammatical : Grammatical reader) (f : α → β) :
    Grammatical fun text => (reader text).map fun (x, rest) => (f x, rest) := by
  intro text y rest h
  obtain ⟨⟨x, _⟩, read, same⟩ := map_eq_ok_iff.1 h
  cases same
  obtain ⟨t, woven, takes⟩ := grammatical _ _ _ read
  exact ⟨t, woven, takes.map f⟩

theorem takes_scalar {c : Char} {token : List Char} (shape : s.token = c :: token)
    (back : ∀ text rest, skipSpace text = c :: (token ++ rest) → Follows rest → reader text = .ok (x, rest)) :
    Takes reader (.scalar s) x := by
  intro text rest woven follows
  obtain ⟨_, _, same, opens⟩ := s.isScalar.exists_opening
  obtain ⟨rfl, rfl⟩ := List.cons.inj (shape.symm.trans same)
  rw [Tree.tokens, shape] at woven
  obtain ⟨_, skipped, ⟨⟩⟩ := woven.skipSpace opens.1
  exact back text rest skipped follows

theorem word_eq_ok_iff {cs : List Char} : word cs text = .ok rest ↔ text = cs ++ rest := by
  induction cs generalizing text with
  | nil => simp [word]
  | cons c cs ih =>
    cases text with
    | nil => simp [word]
    | cons d text =>
      by_cases same : c = d
      · subst same
        simp [word, ih]
      · simp [word, same, Ne.symm same]

end Takes

section Heads

variable {text rest : List Char}

/-- What the beginning of a value is, and what of the text it takes. -/
inductive Beginning (text rest : List Char) : Head → Prop where
  | array (woven : Woven [['[']] text rest) : Beginning text rest .array
  | object (woven : Woven [['{']] text rest) : Beginning text rest .object
  | scalar {head : Head} {s : Scalar} (woven : Woven (Tree.scalar s).tokens text rest)
      (takes : Takes Head.read (.scalar s) head) (array : head ≠ .array) (object : head ≠ .object) :
      Beginning text rest head

theorem beginning_scalar {head : Head} {c : Char} {token later : List Char} (scalar : IsScalar (c :: token))
    (shape : skipSpace text = c :: later) (split : later = token ++ rest)
    (back : ∀ text rest, skipSpace text = c :: (token ++ rest) → Follows rest → Head.read text = .ok (head, rest))
    (array : head ≠ .array) (object : head ≠ .object) : Beginning text rest head := by
  subst split
  exact .scalar (s := ⟨c :: token, scalar⟩) (woven_scalar shape) (takes_scalar rfl back) array object

theorem beginning_word {value head : Head} {c : Char} {cs later : List Char} (scalar : IsScalar (c :: cs))
    (shape : skipSpace text = c :: later) (h : (word cs later).map (fun rest => (value, rest)) = .ok (head, rest))
    (back : ∀ text rest, skipSpace text = c :: (cs ++ rest) →
      Head.read text = (word cs (cs ++ rest)).map fun rest => (value, rest))
    (array : value ≠ .array) (object : value ≠ .object) : Beginning text rest head := by
  obtain ⟨_, split, same⟩ := map_eq_ok_iff.1 h
  cases same
  refine beginning_scalar scalar shape (word_eq_ok_iff.1 split) (fun text rest shape _ => ?_) array object
  rw [back text rest shape, word_eq_ok_iff.2 rfl]
  rfl

theorem Head.read_of_number {n : NumberText} {c : Char} {token : List Char} {number : Number}
    (spells : n.Spells (c :: token)) (value : n.value = .ok number) (shape : skipSpace text = c :: (token ++ rest))
    (follows : Follows rest) : Head.read text = .ok (.number number, rest) := by
  have numeric : c = '-' ∨ c.isDigit = true := by
    obtain ⟨negative, whole, f, e⟩ := n
    generalize same : c :: token = all at spells
    obtain ⟨digits, -, -, -⟩ := spells
    cases negative with
    | true => exact .inl (List.cons.inj same).1
    | false =>
      obtain ⟨d, later, rfl⟩ := List.exists_cons_of_ne_nil digits.1
      obtain rfl : c = d := (List.cons.inj same).1
      exact .inr (digits.2 c List.mem_cons_self)
  have other {d : Char} (minus : d ≠ '-') (digit : d.isDigit = false) : c ≠ d := by
    rintro rfl
    exact numeric.elim minus fun isDigit => absurd isDigit (by simp [digit])
  have scanned : NumberText.scan .endOfValue (c :: (token ++ rest)) = .ok (n, rest) := scan_append spells follows
  rw [Head.read, shape]
  simp only [other (d := 'n') (by decide) rfl, other (d := 't') (by decide) rfl, other (d := 'f') (by decide) rfl,
    other (d := '"') (by decide) rfl, other (d := '[') (by decide) rfl, other (d := '\x7b') (by decide) rfl,
    Bool.or_eq_true, decide_eq_true_eq, numeric, if_true, if_false, NumberText.read, scanned, ok_bind, value]
  rfl

theorem takes_number {n : NumberText} {token : List Char} {number : Number} (spells : n.Spells token)
    (value : n.value = .ok number) : Takes Head.read (.scalar ⟨token, .number spells⟩) (.number number) := by
  obtain ⟨c, later, rfl, -⟩ := (IsScalar.number spells).exists_opening
  exact takes_scalar rfl fun _ _ shape follows => Head.read_of_number spells value shape follows

theorem Head.read_eq_ok {head : Head} (h : Head.read text = .ok (head, rest)) : Beginning text rest head := by
  unfold Head.read at h
  split at h
  · cases h
  next c behind shape =>
  split at h
  next letter =>
    subst letter
    exact beginning_word .null shape h (fun text rest shape => by simp [Head.read, shape]) (by simp) (by simp)
  next =>
  split at h
  next letter =>
    subst letter
    exact beginning_word .true shape h (fun text rest shape => by simp [Head.read, shape]) (by simp) (by simp)
  next =>
  split at h
  next letter =>
    subst letter
    exact beginning_word .false shape h (fun text rest shape => by simp [Head.read, shape]) (by simp) (by simp)
  next =>
  split at h
  next quote =>
    subst quote
    obtain ⟨⟨_, _⟩, read, same⟩ := map_eq_ok_iff.1 h
    cases same
    obtain ⟨body, inside, split, again⟩ := stringBody_eq_ok read
    refine beginning_scalar (.string inside) shape (by simp [split]) (fun text rest shape _ => ?_) (by simp) (by simp)
    rw [List.append_assoc, List.singleton_append] at shape
    simp [Head.read, shape, again, Except.map]
  next =>
  split at h
  next bracket =>
    subst bracket
    cases h
    exact .array (woven_singleton shape)
  next =>
  split at h
  next brace =>
    subst brace
    cases h
    exact .object (woven_singleton shape)
  next =>
  split at h
  next =>
    obtain ⟨⟨_, _⟩, read, same⟩ := map_eq_ok_iff.1 h
    cases same
    obtain ⟨⟨n, _⟩, scanned, valued⟩ := bind_eq_ok_iff.1 read
    obtain ⟨number, value, same⟩ := bind_eq_ok_iff.1 valued
    cases same
    obtain ⟨token, spells, split⟩ := scan_eq_ok scanned
    obtain ⟨d, later, rfl, -⟩ := (IsScalar.number spells).exists_opening
    obtain ⟨rfl, behind⟩ := List.cons.inj split
    refine beginning_scalar (.number spells) shape behind (fun text rest shape follows => ?_) (by simp) (by simp)
    exact read_of_number spells value shape follows
  · cases h

theorem Head.read_array {ts : List Tree} (woven : Woven (Tree.array ts).tokens text rest) :
    ∃ inside, Head.read text = .ok (.array, inside) ∧ Woven (Tree.itemTokens true ts) inside rest := by
  rw [Tree.tokens] at woven
  obtain ⟨inside, shape, woven⟩ := woven.skipSpace rfl
  exact ⟨inside, by simp [Head.read, shape], woven⟩

theorem Head.read_object {ms : List (Name × Tree)} (woven : Woven (Tree.object ms).tokens text rest) :
    ∃ inside, Head.read text = .ok (.object, inside) ∧ Woven (Tree.memberTokens true ms) inside rest := by
  rw [Tree.tokens] at woven
  obtain ⟨inside, shape, woven⟩ := woven.skipSpace rfl
  exact ⟨inside, by simp [Head.read, shape], woven⟩

theorem Takes.readString {t : Tree} {s : String} (takes : Takes Head.read t (.string s)) : Takes readString t s := by
  intro text rest woven follows
  rw [Json.readString, takes text rest woven follows]
  rfl

theorem grammatical_readString : Grammatical readString := by
  intro text s rest h
  obtain ⟨⟨head, _⟩, read, h⟩ := bind_eq_ok_iff.1 h
  cases head with
  | string s' =>
    cases h
    obtain _ | _ | ⟨woven, takes⟩ := Head.read_eq_ok read
    exact ⟨_, woven, takes.readString⟩
  | _ => cases h

end Heads

section Optional

variable {α : Type} {reader : Reader α} {t : Tree} {x : α}

def Tree.null : Tree :=
  .scalar ⟨['n', 'u', 'l', 'l'], .null⟩

def Tree.Starts (t : Tree) (c : Char) : Prop :=
  ∃ token tokens, t.tokens = (c :: token) :: tokens

theorem takes_null_head : Takes Head.read .null .null :=
  takes_scalar rfl fun text rest shape _ => by simp [Head.read, shape, word, Except.map]

theorem takes_null : Takes (readOptional reader) .null none :=
  takes_scalar rfl fun text rest shape _ => by simp [readOptional, shape, word, Except.map]

theorem Takes.readOptional (takes : Takes reader t x) (other : ¬t.Starts 'n') :
    Takes (readOptional reader) t (some x) := by
  intro text rest woven follows
  obtain ⟨c, token, tokens, same, opens⟩ := t.exists_opening
  have visible : c ≠ 'n' := by
    rintro rfl
    exact other ⟨_, _, same⟩
  obtain ⟨behind, shape, -⟩ := (same ▸ woven).skipSpace opens.1
  unfold Json.readOptional
  split
  · next first =>
    rw [shape] at first
    exact absurd (List.cons.inj first).1 visible
  · rw [takes text rest woven follows]
    rfl

theorem yields_readOptional {P : Tree → α → Prop} (yields : Yields reader P) :
    Yields (readOptional reader) fun t x => t = .null ∧ x = none ∨ ∃ y, x = some y ∧ P t y ∧ ¬t.Starts 'n' := by
  intro text x rest h
  unfold readOptional at h
  split at h
  next shape =>
    obtain ⟨_, split, same⟩ := map_eq_ok_iff.1 h
    cases same
    rw [word_eq_ok_iff.1 split] at shape
    exact ⟨.null, woven_scalar shape, .inl ⟨rfl, rfl⟩⟩
  next other =>
    obtain ⟨⟨y, _⟩, read, same⟩ := map_eq_ok_iff.1 h
    cases same
    obtain ⟨t, woven, belongs⟩ := yields _ _ _ read
    refine ⟨t, woven, .inr ⟨y, rfl, belongs, ?_⟩⟩
    rintro ⟨token, tokens, same⟩
    obtain ⟨behind, shape, -⟩ := (same ▸ woven).skipSpace rfl
    exact other _ shape

theorem Grammatical.readOptional (grammatical : Grammatical reader) : Grammatical (readOptional reader) := by
  intro text x rest h
  obtain ⟨t, woven, ⟨rfl, rfl⟩ | ⟨y, rfl, takes, other⟩⟩ := yields_readOptional grammatical _ _ _ h
  · exact ⟨.null, woven, takes_null⟩
  · exact ⟨t, woven, takes.readOptional other⟩

end Optional

section Items

variable {α : Type} {item : Reader α} {ts : List Tree} {xs : List α} {text rest : List Char}

theorem items_eq_ok {P : Tree → α → Prop} (yields : Yields item P) (h : items item text = .ok (xs, rest)) :
    ∃ ts, Woven (Tree.itemTokens true ts) text rest ∧ List.Forall₂ P ts xs := by
  unfold items at h
  extract_lets round at h
  have start : ∃ ts ys, Woven (Tree.itemTokens true ts) text rest ∧ List.Forall₂ P ts ys ∧ xs = [].reverse ++ ys := by
    refine loop_induct (P := fun state text => ∃ ts ys, Woven (Tree.itemTokens state.1 ts) text rest ∧
      List.Forall₂ P ts ys ∧ xs = state.2.reverse ++ ys) h ?_ ?_
    · rintro ⟨first, before⟩ text ended
      obtain ⟨⟨more, behind⟩, next, ended⟩ := bind_eq_ok_iff.1 ended
      cases more with
      | true =>
        obtain ⟨_, -, ended⟩ := bind_eq_ok_iff.1 ended
        cases ended
      | false =>
        obtain ⟨_, closed, ended⟩ := bind_eq_ok_iff.1 ended
        cases ended
        exact ⟨[], [], woven_of_nextItem_end next closed, .nil, (List.append_nil _).symm⟩
    · rintro ⟨first, before⟩ text ⟨_, _⟩ mid goesOn later
      obtain ⟨⟨more, behind⟩, next, goesOn⟩ := bind_eq_ok_iff.1 goesOn
      cases more with
      | false =>
        obtain ⟨_, -, goesOn⟩ := bind_eq_ok_iff.1 goesOn
        cases goesOn
      | true =>
        obtain ⟨⟨y, _⟩, read, goesOn⟩ := bind_eq_ok_iff.1 goesOn
        cases goesOn
        obtain ⟨t, woven, belongs⟩ := yields _ _ _ read
        obtain ⟨ts, ys, others, each, same⟩ := later
        refine ⟨t :: ts, y :: ys, woven_of_nextItem next woven others, .cons belongs each, ?_⟩
        rw [same, List.reverse_cons, List.append_assoc]
        rfl
  obtain ⟨ts, ys, woven, each, rfl⟩ := start
  exact ⟨ts, woven, each⟩

theorem follows_items (woven : Woven (Tree.itemTokens false ts) text rest) : Follows text := by
  cases ts with
  | nil => exact (Tree.itemTokens.eq_1 false ▸ woven).follows (by simp)
  | cons t ts =>
    rw [Tree.itemTokens] at woven
    exact woven.follows (by simp)

theorem items_of_woven (each : List.Forall₂ (Takes item) ts xs) (woven : Woven (Tree.itemTokens true ts) text rest) :
    items item text = .ok (xs, rest) := by
  unfold items
  extract_lets round
  have runs : ∀ first before, Woven (Tree.itemTokens first ts) text rest →
      Runs round (first, before) text (.ok (before.reverse ++ xs, rest)) := by
    clear woven
    induction each generalizing text with
    | nil =>
      intro first before woven
      obtain ⟨closing, next, closed⟩ := nextItem_end woven
      refine .done ?_
      simp only [round, next, ok_bind, Bool.false_eq_true, if_false, closed, List.append_nil]
      rfl
    | @cons t x ts xs takes _ ih =>
      intro first before woven
      obtain ⟨front, later, next, woven, others, shorter⟩ := nextItem_item woven
      have step : round (first, before) text = .ok (.again (false, x :: before), later) := by
        simp only [round, next, ok_bind, if_true, takes front later woven (follows_items others)]
        rfl
      have runs := ih false (x :: before) others
      rw [List.reverse_cons, List.append_assoc] at runs
      exact .again step (Nat.lt_of_lt_of_le (Tree.length_lt woven) shorter) runs
  simpa using (runs true [] woven).loop

theorem takes_readList (each : List.Forall₂ (Takes item) ts xs) : Takes (readList (some item)) (.array ts) xs := by
  intro text rest woven _
  obtain ⟨inside, head, woven⟩ := Head.read_array woven
  rw [readList, head, ok_bind]
  exact items_of_woven each woven

theorem yields_readList {P : Tree → α → Prop} (yields : Yields item P) :
    Yields (readList (some item)) fun t xs => ∃ ts, t = .array ts ∧ List.Forall₂ P ts xs := by
  intro text xs rest h
  obtain ⟨⟨head, behind⟩, read, h⟩ := bind_eq_ok_iff.1 h
  cases head with
  | array =>
    obtain woven | _ | ⟨-, -, bracket, -⟩ := Head.read_eq_ok read
    · obtain ⟨ts, others, each⟩ := items_eq_ok yields h
      exact ⟨.array ts, woven_array woven others, ts, rfl, each⟩
    · exact absurd rfl bracket
  | _ => cases h

theorem grammatical_readList {inside : Option (Reader α)} (grammatical : ∀ item ∈ inside, Grammatical item) :
    Grammatical (readList inside) := by
  intro text xs rest h
  obtain ⟨item, _, rfl, -⟩ := readList_eq_ok h
  obtain ⟨t, woven, ts, rfl, each⟩ := yields_readList (grammatical item rfl) _ _ _ h
  exact ⟨_, woven, takes_readList each⟩

end Items

section Members

variable {α : Type} {value : Reader α} {ms : List (Name × Tree)} {xs : List (String × α)} {text rest : List Char}

theorem follows_members (woven : Woven (Tree.memberTokens false ms) text rest) : Follows text := by
  cases ms with
  | nil => exact (Tree.memberTokens.eq_1 false ▸ woven).follows (by simp)
  | cons m ms =>
    rw [Tree.memberTokens] at woven
    exact woven.follows (by simp)

theorem members_eq_ok (grammatical : Grammatical value) (h : members value text = .ok (xs, rest)) :
    ∃ ms, Woven (Tree.memberTokens true ms) text rest ∧
      List.Forall₂ (fun m x => m.1.Decodes x.1 ∧ Takes value m.2 x.2) ms xs := by
  unfold members at h
  extract_lets round at h
  have start : ∃ ms ys, Woven (Tree.memberTokens true ms) text rest ∧
      List.Forall₂ (fun m x => m.1.Decodes x.1 ∧ Takes value m.2 x.2) ms ys ∧ xs = [].reverse ++ ys := by
    refine loop_induct (P := fun state text => ∃ ms ys, Woven (Tree.memberTokens state.1 ms) text rest ∧
      List.Forall₂ (fun m x => m.1.Decodes x.1 ∧ Takes value m.2 x.2) ms ys ∧ xs = state.2.reverse ++ ys) h ?_ ?_
    · rintro ⟨first, before⟩ text ended
      obtain ⟨⟨more, behind⟩, next, ended⟩ := bind_eq_ok_iff.1 ended
      cases more with
      | true =>
        obtain ⟨_, -, ended⟩ := bind_eq_ok_iff.1 ended
        obtain ⟨_, -, ended⟩ := bind_eq_ok_iff.1 ended
        obtain ⟨_, -, ended⟩ := bind_eq_ok_iff.1 ended
        cases ended
      | false =>
        cases ended
        exact ⟨[], [], woven_of_nextName_end next, .nil, (List.append_nil _).symm⟩
    · rintro ⟨first, before⟩ text ⟨_, _⟩ mid goesOn later
      obtain ⟨⟨more, behind⟩, next, goesOn⟩ := bind_eq_ok_iff.1 goesOn
      cases more with
      | false => cases goesOn
      | true =>
        obtain ⟨⟨s, _⟩, named, goesOn⟩ := bind_eq_ok_iff.1 goesOn
        obtain ⟨_, mark, goesOn⟩ := bind_eq_ok_iff.1 goesOn
        obtain ⟨⟨y, _⟩, read, goesOn⟩ := bind_eq_ok_iff.1 goesOn
        cases goesOn
        obtain ⟨name, rfl, decodes⟩ := exists_name_of_stringBody named
        obtain ⟨t, woven, takes⟩ := grammatical _ _ _ read
        obtain ⟨ms, ys, others, each, same⟩ := later
        refine ⟨(name, t) :: ms, (s, y) :: ys, woven_of_nextName next mark woven others,
          .cons ⟨decodes, takes⟩ each, ?_⟩
        rw [same, List.reverse_cons, List.append_assoc]
        rfl
  obtain ⟨ms, ys, woven, each, rfl⟩ := start
  exact ⟨ms, woven, each⟩

theorem members_of_woven (each : List.Forall₂ (fun m x => m.1.Decodes x.1 ∧ Takes value m.2 x.2) ms xs)
    (woven : Woven (Tree.memberTokens true ms) text rest) : members value text = .ok (xs, rest) := by
  unfold members
  extract_lets round
  have runs : ∀ first before, Woven (Tree.memberTokens first ms) text rest →
      Runs round (first, before) text (.ok (before.reverse ++ xs, rest)) := by
    clear woven
    induction each generalizing text with
    | nil =>
      intro first before woven
      refine .done ?_
      simp only [round, nextName_end woven, ok_bind, Bool.false_eq_true, if_false, List.append_nil]
      rfl
    | @cons m x ms xs belongs _ ih =>
      intro first before woven
      obtain ⟨name, t⟩ := m
      obtain ⟨decodes, takes⟩ := belongs
      obtain ⟨behind, front, later, next, mark, woven, others, shorter⟩ := nextName_member woven
      have step : round (first, before) text = .ok (.again (false, x :: before), later) := by
        simp only [round, next, ok_bind, if_true, decodes behind, mark,
          takes front later woven (follows_members others)]
        rfl
      have runs := ih false (x :: before) others
      rw [List.reverse_cons, List.append_assoc] at runs
      exact .again step (Nat.lt_trans (Tree.length_lt woven) shorter) runs
  simpa using (runs true [] woven).loop

end Members

section Values

theorem grammatical_readOver {inside : Option (Reader Value)} (grammatical : ∀ reader ∈ inside, Grammatical reader) :
    Grammatical (Value.readOver inside) := by
  intro text v rest h
  obtain ⟨⟨head, behind⟩, read, h⟩ := bind_eq_ok_iff.1 h
  obtain woven | woven | ⟨woven, takes, bracket, brace⟩ := Head.read_eq_ok read
  · cases inside with
    | none => cases h
    | some reader =>
      obtain ⟨⟨xs, _⟩, all, same⟩ := bind_eq_ok_iff.1 h
      cases same
      obtain ⟨ts, others, each⟩ := items_eq_ok (grammatical reader rfl) all
      refine ⟨.array ts, woven_array woven others, fun text rest woven _ => ?_⟩
      obtain ⟨inside, head, woven⟩ := Head.read_array woven
      rw [Value.readOver, head, ok_bind]
      simp only [items_of_woven each woven, ok_bind]
      rfl
  · cases inside with
    | none => cases h
    | some reader =>
      obtain ⟨⟨xs, _⟩, all, same⟩ := bind_eq_ok_iff.1 h
      cases same
      obtain ⟨ms, others, each⟩ := members_eq_ok (grammatical reader rfl) all
      refine ⟨.object ms, woven_object woven others, fun text rest woven _ => ?_⟩
      obtain ⟨inside, head, woven⟩ := Head.read_object woven
      rw [Value.readOver, head, ok_bind]
      simp only [members_of_woven each woven, ok_bind]
      rfl
  · cases head with
    | array => exact absurd rfl bracket
    | object => exact absurd rfl brace
    | _ =>
      cases h
      refine ⟨_, woven, fun text rest woven follows => ?_⟩
      rw [Value.readOver, takes text rest woven follows]
      rfl

theorem grammatical_read (levels : Nat) : Grammatical (Value.read levels) := by
  induction levels with
  | zero => exact grammatical_readOver (by simp)
  | succ levels ih => exact grammatical_readOver (by simpa using ih)

end Values

section Choices

variable {α : Type} {choices : List (String × α)} {levels : Nat} {name : Name} {s : String} {x : α}

theorem takes_readChoice_string (decodes : name.Decodes s) (chosen : choose choices s = .ok x) :
    Takes (readChoice choices levels) (.scalar ⟨name.token, .string name.inString⟩) x := by
  refine takes_scalar rfl fun text rest shape _ => ?_
  rw [List.append_assoc, List.singleton_append] at shape
  simp only [readChoice, shape, if_true, decodes rest, ok_bind, chosen]
  rfl

theorem takes_readChoice_object {t : Tree} (inside : levels ≠ 0) (decodes : name.Decodes s)
    (chosen : choose choices s = .ok x) (null : Takes Head.read t .null) :
    Takes (readChoice choices levels) (.object [(name, t)]) x := by
  intro text rest woven _
  rw [Tree.tokens] at woven
  obtain ⟨_, shape, woven⟩ := woven.skipSpace rfl
  rw [List.nil_append] at shape
  obtain ⟨behind, front, later, next, mark, woven, ending, -⟩ := nextName_member woven
  have read := null front later woven (follows_members ending)
  rw [Tree.memberTokens] at ending
  obtain ⟨_, brace, ⟨⟩⟩ := ending.skipSpace rfl
  simp only [readChoice, shape, next, decodes behind, chosen, mark, read, brace, ok_bind]
  simp [inside, pure, Except.pure]

theorem grammatical_readChoice : Grammatical (readChoice choices levels) := by
  intro text x rest h
  unfold readChoice at h
  split at h
  · cases h
  next c behind shape =>
  split at h
  next quote =>
    subst quote
    obtain ⟨⟨s, _⟩, named, h⟩ := bind_eq_ok_iff.1 h
    obtain ⟨_, chosen, h⟩ := bind_eq_ok_iff.1 h
    cases h
    obtain ⟨name, rfl, decodes⟩ := exists_name_of_stringBody named
    exact ⟨_, woven_scalar (by simp [shape, Name.token]), takes_readChoice_string decodes chosen⟩
  split at h
  next brace =>
    subst brace
    split at h
    · cases h
    next inside =>
    obtain ⟨⟨more, _⟩, next, h⟩ := bind_eq_ok_iff.1 h
    cases more with
    | false => cases h
    | true =>
    obtain ⟨⟨s, _⟩, named, h⟩ := bind_eq_ok_iff.1 h
    obtain ⟨_, chosen, h⟩ := bind_eq_ok_iff.1 h
    obtain ⟨_, mark, h⟩ := bind_eq_ok_iff.1 h
    obtain ⟨⟨head, later⟩, read, h⟩ := bind_eq_ok_iff.1 h
    dsimp only at h
    split at h
    · cases h
    next isNull =>
    obtain rfl : head = .null := by simpa using isNull
    split at h
    · cases h
    next d _ ending =>
    split at h
    next closing =>
      subst closing
      cases h
      obtain ⟨name, rfl, decodes⟩ := exists_name_of_stringBody named
      obtain _ | _ | ⟨woven, null⟩ := Head.read_eq_ok read
      have members := woven_of_nextName next mark woven (woven_members_nil ending)
      exact ⟨_, woven_object (woven_singleton shape) members, takes_readChoice_object inside decodes chosen null⟩
    · cases h
  · cases h

end Choices

end SpeechMarkup.Json
