import SpeechMarkup.Proofs.TreeReaders

/-! Values that are passed over. Exactly the trees are, however deep they are; and so no text spells two trees. -/

namespace SpeechMarkup.Json

namespace Pass

def round : Pass → Reader (Round Pass Unit)
  | value frames => atValue frames
  | closing frames => atClosing frames

theorem passValue_eq (text : List Char) : passValue text = (loop round (value []) text).map Prod.snd := by
  unfold passValue
  extract_lets rounds
  have same : rounds = round := by
    funext pass
    cases pass <;> rfl
  rw [same]
  cases loop round (value []) text <;> rfl

variable {frames : List Frame} {text mid rest : List Char}

section Member

theorem member_eq_ok (h : member text = .ok rest) : ∃ name : Name, Woven [name.token, [':']] text rest := by
  unfold member at h
  split at h
  · cases h
  next c behind shape =>
  split at h
  next quote =>
    subst quote
    obtain ⟨after, passed, mark⟩ := bind_eq_ok_iff.1 h
    obtain ⟨body, inside, rfl⟩ := passString_eq_ok passed
    have written : skipSpace text = '"' :: (body ++ ['"']) ++ after := by simp [shape]
    exact ⟨⟨body, inside⟩, woven_of_skipSpace written (woven_of_colon mark)⟩
  · cases h

theorem member_skipSpace (text : List Char) : member (skipSpace text) = member text := by
  simp only [member, skipSpace_skipSpace]

theorem member_of_woven {name : Name} {tokens : List (List Char)}
    (woven : Woven (name.token :: [':'] :: tokens) text rest) :
    ∃ value, member text = .ok value ∧ Woven tokens value rest ∧ value.length < text.length := by
  obtain ⟨behind, shape, woven⟩ := woven.skipSpace rfl
  rw [List.append_assoc, List.singleton_append] at shape
  have passed : passString (name.body ++ '"' :: behind) = .ok behind :=
    name.inString.passString behind
  have first := length_skipSpace_le text
  have second := length_skipSpace_le behind
  obtain ⟨value, mark, woven⟩ := woven.skipSpace rfl
  rw [List.nil_append] at mark
  refine ⟨value, by simp [member, shape, passed, colon, mark], woven, ?_⟩
  simp only [shape, mark, List.length_cons, List.length_append] at first second
  omega

end Member

section Sound

/-- From here on the text closes the frames, and this is what it leaves. In the innermost frame an item or a member may
have come before or not. -/
def Closes (rest : List Char) : Bool → List Frame → List Char → Prop
  | _, [], text => text = rest
  | first, .array :: outer, text =>
    ∃ ts mid, Woven (Tree.itemTokens first ts) text mid ∧ Closes rest false outer mid
  | first, .object :: outer, text =>
    ∃ ms mid, Woven (Tree.memberTokens first ms) text mid ∧ Closes rest false outer mid

/-- What is left to be passed over is a value and the ends of the frames, or these ends alone. -/
def Stands (rest : List Char) : Pass → List Char → Prop
  | value frames, text => ∃ (t : Tree) (mid : List Char), Woven t.tokens text mid ∧ Closes rest false frames mid
  | closing frames, text => Closes rest false frames text

variable {outcome : Round Pass Unit} {frame : Frame} {outer : List Frame}

/-- A round goes on, and if what it goes on to stands in the grammar, so does what it came from. -/
def Leads (outcome : Round Pass Unit) (mid : List Char) (Q : List Char → Prop) : Prop :=
  ∃ next, outcome = .again next ∧ ∀ rest, next.Stands rest mid → Q rest

theorem enter_eq_ok (h : enter (frame :: outer) text = .ok (outcome, mid)) {first : Bool} {source : List Char}
    (separator : ∀ tokens rest, tokens ≠ [] → Woven tokens text rest → Woven (Tree.comma first ++ tokens) source rest) :
    Leads outcome mid fun rest => Closes rest first (frame :: outer) source := by
  cases frame with
  | array =>
    cases h
    refine ⟨_, rfl, ?_⟩
    rintro rest ⟨t, behind, woven, ts, last, others, closes⟩
    refine ⟨t :: ts, last, ?_, closes⟩
    rw [Tree.itemTokens]
    refine separator _ _ (List.append_ne_nil_of_left_ne_nil t.tokens_ne_nil _) ?_
    exact woven_append_iff.2 ⟨behind, woven, others⟩
  | object =>
    obtain ⟨_, passed, same⟩ := map_eq_ok_iff.1 h
    cases same
    obtain ⟨name, named⟩ := member_eq_ok passed
    refine ⟨_, rfl, ?_⟩
    rintro rest ⟨t, behind, woven, ms, last, others, closes⟩
    refine ⟨(name, t) :: ms, last, ?_, closes⟩
    rw [Tree.memberTokens]
    refine separator _ _ (List.cons_ne_nil _ _) ?_
    exact woven_append_iff.2 ⟨mid, named, woven_append_iff.2 ⟨behind, woven, others⟩⟩

theorem opened_eq_ok (h : opened frame frames text = .ok (outcome, mid)) :
    Leads outcome mid fun rest => Closes rest true (frame :: frames) text := by
  unfold opened at h
  split at h
  · cases h
  · cases h
  · next shape =>
    cases h
    exact ⟨_, rfl, fun rest closes => ⟨[], mid, woven_items_nil shape, closes⟩⟩
  · next shape =>
    cases h
    exact ⟨_, rfl, fun rest closes => ⟨[], mid, woven_members_nil shape, closes⟩⟩
  · exact enter_eq_ok h fun tokens rest nonempty woven => woven_of_woven_skipSpace woven nonempty

theorem atClosing_eq_ok (h : atClosing frames text = .ok (outcome, mid)) :
    frames = [] ∧ outcome = .done () ∧ mid = text ∨ Leads outcome mid fun rest => Closes rest false frames text := by
  have separator {behind : List Char} (shape : skipSpace text = ',' :: behind) (tokens : List (List Char))
      (rest : List Char) (_ : tokens ≠ []) (woven : Woven tokens behind rest) :
      Woven (Tree.comma false ++ tokens) text rest :=
    woven_append_iff.2 ⟨behind, woven_singleton shape, woven⟩
  unfold atClosing at h
  split at h
  · cases h
    exact .inl ⟨rfl, rfl, rfl⟩
  · split at h
    · cases h
    next c _ shape =>
    split at h
    next isComma =>
      subst isComma
      exact .inr (enter_eq_ok h (separator shape))
    split at h
    next bracket =>
      subst bracket
      cases h
      exact .inr ⟨_, rfl, fun rest closes => ⟨[], mid, woven_items_nil shape, closes⟩⟩
    · cases h
  · split at h
    · cases h
    next c _ shape =>
    split at h
    next isComma =>
      subst isComma
      exact .inr (enter_eq_ok h (separator shape))
    split at h
    next brace =>
      subst brace
      cases h
      exact .inr ⟨_, rfl, fun rest closes => ⟨[], mid, woven_members_nil shape, closes⟩⟩
    · cases h

theorem atValue_eq_ok (h : atValue frames text = .ok (outcome, mid)) :
    Leads outcome mid fun rest => (value frames).Stands rest text := by
  unfold atValue at h
  extract_lets scalar at h
  split at h
  · cases h
  next c behind shape =>
  have passed {token : List Char} (isScalar : IsScalar token) (written : skipSpace text = token ++ mid)
      (same : outcome = .again (closing frames)) : Leads outcome mid fun rest => (value frames).Stands rest text := by
    exact ⟨_, same, fun rest closes => ⟨.scalar ⟨token, isScalar⟩, mid, woven_scalar written, closes⟩⟩
  have word {cs : List Char} (isScalar : IsScalar (c :: cs)) (h : scalar (word cs behind) = .ok (outcome, mid)) :
      Leads outcome mid fun rest => (value frames).Stands rest text := by
    obtain ⟨_, split, same⟩ := map_eq_ok_iff.1 h
    cases same
    exact passed isScalar (by rw [shape, word_eq_ok_iff.1 split]; rfl) rfl
  split at h
  · next letter => exact word (letter ▸ .null) h
  split at h
  · next letter => exact word (letter ▸ .true) h
  split at h
  · next letter => exact word (letter ▸ .false) h
  split at h
  next quote =>
    subst quote
    obtain ⟨_, skipped, same⟩ := map_eq_ok_iff.1 h
    cases same
    obtain ⟨body, inside, rfl⟩ := passString_eq_ok skipped
    exact passed (.string inside) (by simp [shape]) rfl
  split at h
  · obtain ⟨_, skipped, same⟩ := map_eq_ok_iff.1 h
    cases same
    obtain ⟨⟨n, _⟩, scanned, same⟩ := map_eq_ok_iff.1 skipped
    cases same
    obtain ⟨token, spells, split⟩ := scan_eq_ok scanned
    exact passed (.number spells) (by rw [shape, split]) rfl
  split at h
  next bracket =>
    subst bracket
    obtain ⟨next, rfl, closes⟩ := opened_eq_ok h
    refine ⟨next, rfl, fun rest stands => ?_⟩
    obtain ⟨ts, last, woven, closes⟩ := closes rest stands
    exact ⟨.array ts, last, woven_array (woven_singleton shape) woven, closes⟩
  split at h
  next brace =>
    subst brace
    obtain ⟨next, rfl, closes⟩ := opened_eq_ok h
    refine ⟨next, rfl, fun rest stands => ?_⟩
    obtain ⟨ms, last, woven, closes⟩ := closes rest stands
    exact ⟨.object ms, last, woven_object (woven_singleton shape) woven, closes⟩
  · cases h

theorem passValue_eq_ok (h : passValue text = .ok rest) : ∃ t : Tree, Woven t.tokens text rest := by
  rw [passValue_eq] at h
  obtain ⟨⟨_, behind⟩, passed, same⟩ := map_eq_ok_iff.1 h
  obtain rfl : behind = rest := same
  have stands : (value []).Stands behind text := by
    refine loop_induct (P := Stands behind) passed ?_ ?_
    · intro pass text ended
      cases pass with
      | value frames =>
        obtain ⟨_, goesOn, -⟩ := atValue_eq_ok ended
        cases goesOn
      | closing frames =>
        obtain ⟨rfl, -, same⟩ | ⟨_, goesOn, -⟩ := atClosing_eq_ok ended
        · exact same.symm
        · cases goesOn
    · intro pass text next mid goesOn later
      cases pass with
      | value frames =>
        obtain ⟨_, same, leads⟩ := atValue_eq_ok goesOn
        cases same
        exact leads behind later
      | closing frames =>
        obtain ⟨-, ended, -⟩ | ⟨_, same, leads⟩ := atClosing_eq_ok goesOn
        · cases ended
        · cases same
          exact leads behind later
  obtain ⟨t, mid, woven, rfl⟩ := stands
  exact ⟨t, woven⟩

end Sound

section Complete

variable {outer : List Frame} {result : Except ReadError (Unit × List Char)} {c : Char} {behind : List Char}

def Passes (t : Tree) : Prop :=
  ∀ frames text rest result, Woven t.tokens text rest → Follows rest →
    Runs round (closing frames) rest result → Runs round (value frames) text result

theorem opened_array (shape : skipSpace text = c :: behind) (item : c ≠ ']') :
    opened .array frames text = .ok (.again (value (.array :: frames)), c :: behind) := by
  simp [opened, shape, item, enter]

theorem opened_object (shape : skipSpace text = c :: behind) (name : c ≠ '}') :
    opened .object frames text = (member (c :: behind)).map fun rest => (.again (value (.object :: frames)), rest) := by
  simp [opened, shape, name, enter]

theorem passes_scalar (s : Scalar) : Passes (.scalar s) := by
  intro frames text rest result woven follows later
  have shorter := Tree.length_lt woven
  rw [Tree.tokens] at woven
  suffices passed : atValue frames text = .ok (.again (closing frames), rest) from .again passed shorter later
  obtain ⟨token, isScalar⟩ := s
  cases isScalar with
  | null | true | false =>
    obtain ⟨_, shape, ⟨⟩⟩ := woven.skipSpace rfl
    simp [atValue, shape, Json.word, Except.map]
  | @string body inside =>
    obtain ⟨_, shape, ⟨⟩⟩ := woven.skipSpace rfl
    rw [List.append_assoc, List.singleton_append] at shape
    have skipped : passString (body ++ '"' :: rest) = .ok rest := inside.passString rest
    simp [atValue, shape, skipped, Except.map]
  | @number n _ spells =>
    obtain ⟨c, later, rfl, numeric⟩ := spells.exists_opening
    have other {x : Char} (minus : x ≠ '-') (digit : x.isDigit = false) : c ≠ x := by
      rintro rfl
      rcases numeric with rfl | isDigit
      · exact minus rfl
      · exact Bool.false_ne_true (digit.symm.trans isDigit)
    obtain ⟨_, _, same, opens⟩ := (IsScalar.number spells).exists_opening
    obtain ⟨rfl, rfl⟩ := List.cons.inj same
    obtain ⟨_, shape, ⟨⟩⟩ := woven.skipSpace opens.1
    have scanned : NumberText.scan .invalidNumber (c :: (later ++ rest)) = .ok (n, rest) := scan_append spells follows
    have isNumeric : (c = '-' || c.isDigit) = true := by simpa using numeric
    simp only [atValue, shape, other (x := 'n') (by decide) (by decide), other (x := 't') (by decide) (by decide),
      other (x := 'f') (by decide) (by decide), other (x := '"') (by decide) (by decide), isNumeric, scanned, if_true,
      if_false]
    rfl

theorem runs_items {ts : List Tree} (each : ∀ t ∈ ts, Passes t) (woven : Woven (Tree.itemTokens false ts) text rest)
    (later : Runs round (closing outer) rest result) : Runs round (closing (.array :: outer)) text result := by
  induction ts generalizing text with
  | nil =>
    rw [Tree.itemTokens] at woven
    have shorter := woven.length_lt
    obtain ⟨_, shape, ⟨⟩⟩ := woven.skipSpace rfl
    exact .again (by simp [round, atClosing, shape]) shorter later
  | cons t ts ih =>
    obtain ⟨passes, others⟩ := List.forall_mem_cons.1 each
    rw [Tree.itemTokens] at woven
    obtain ⟨mid, separator, woven⟩ := woven_append_iff.1 woven
    obtain ⟨behind, item, woven⟩ := woven_append_iff.1 woven
    have shorter := separator.length_lt
    obtain ⟨_, shape, ⟨⟩⟩ := separator.skipSpace rfl
    have step : round (closing (.array :: outer)) text = .ok (.again (value (.array :: outer)), mid) := by
      simp [round, atClosing, shape, enter]
    exact .again step shorter (passes _ _ _ _ item (follows_items woven) (ih others woven))

theorem runs_members {ms : List (Name × Tree)} (each : ∀ m ∈ ms, Passes m.2)
    (woven : Woven (Tree.memberTokens false ms) text rest) (later : Runs round (closing outer) rest result) :
    Runs round (closing (.object :: outer)) text result := by
  induction ms generalizing text with
  | nil =>
    rw [Tree.memberTokens] at woven
    have shorter := woven.length_lt
    obtain ⟨_, shape, ⟨⟩⟩ := woven.skipSpace rfl
    exact .again (by simp [round, atClosing, shape]) shorter later
  | cons m ms ih =>
    obtain ⟨name, t⟩ := m
    obtain ⟨passes, others⟩ := List.forall_mem_cons.1 each
    rw [Tree.memberTokens] at woven
    obtain ⟨mid, separator, woven⟩ := woven_append_iff.1 woven
    obtain ⟨front, named, woven, shorter⟩ := member_of_woven woven
    obtain ⟨behind, item, woven⟩ := woven_append_iff.1 woven
    have further := separator.length_lt
    obtain ⟨_, shape, ⟨⟩⟩ := separator.skipSpace rfl
    have step : round (closing (.object :: outer)) text = .ok (.again (value (.object :: outer)), front) := by
      simp [round, atClosing, shape, enter, named, Except.map]
    exact .again step (Nat.lt_trans shorter further) (passes _ _ _ _ item (follows_members woven) (ih others woven))

theorem passes_array {ts : List Tree} (each : ∀ t ∈ ts, Passes t) : Passes (.array ts) := by
  intro frames text rest result woven _ later
  have shorter := Tree.length_lt woven
  rw [Tree.tokens] at woven
  obtain ⟨inside, shape, woven⟩ := woven.skipSpace rfl
  rw [List.nil_append] at shape
  have goesOn : atValue frames text = opened .array frames inside := by simp [atValue, shape]
  cases ts with
  | nil =>
    rw [Tree.itemTokens] at woven
    obtain ⟨_, bracket, ⟨⟩⟩ := woven.skipSpace rfl
    exact .again (goesOn.trans (by simp [opened, bracket])) shorter later
  | cons t ts =>
    obtain ⟨passes, others⟩ := List.forall_mem_cons.1 each
    rw [Tree.itemTokens] at woven
    obtain ⟨behind, item, woven⟩ : ∃ behind, Woven t.tokens inside behind ∧ _ := woven_append_iff.1 woven
    obtain ⟨c, front, first, ⟨-, -, notEnd, -⟩, item⟩ := Tree.skipSpace item
    have further := length_skipSpace_le inside
    rw [first] at further
    refine .again (goesOn.trans (opened_array first notEnd)) ?_ ?_
    · exact Nat.lt_of_le_of_lt further (length_lt_of_skipSpace shape)
    · exact passes _ _ _ _ item (follows_items woven) (runs_items others woven later)

theorem passes_object {ms : List (Name × Tree)} (each : ∀ m ∈ ms, Passes m.2) : Passes (.object ms) := by
  intro frames text rest result woven _ later
  have shorter := Tree.length_lt woven
  rw [Tree.tokens] at woven
  obtain ⟨inside, shape, woven⟩ := woven.skipSpace rfl
  rw [List.nil_append] at shape
  have goesOn : atValue frames text = opened .object frames inside := by simp [atValue, shape]
  cases ms with
  | nil =>
    rw [Tree.memberTokens] at woven
    obtain ⟨_, brace, ⟨⟩⟩ := woven.skipSpace rfl
    exact .again (goesOn.trans (by simp [opened, brace])) shorter later
  | cons m ms =>
    obtain ⟨name, t⟩ := m
    obtain ⟨passes, others⟩ := List.forall_mem_cons.1 each
    rw [Tree.memberTokens] at woven
    obtain ⟨_, first, -⟩ := (woven : Woven (name.token :: _) inside rest).skipSpace rfl
    obtain ⟨front, named, woven, further⟩ := member_of_woven woven
    obtain ⟨behind, item, woven⟩ := woven_append_iff.1 woven
    have step : opened .object frames inside = .ok (.again (value (.object :: frames)), front) := by
      rw [opened_object first (by decide), ← first, member_skipSpace, named]
      rfl
    refine .again (goesOn.trans step) (Nat.lt_trans further (length_lt_of_skipSpace shape)) ?_
    exact passes _ _ _ _ item (follows_members woven) (runs_members others woven later)

theorem passes (t : Tree) : Passes t := by
  induction t using Tree.induct with
  | scalar s => exact passes_scalar s
  | array ts each => exact passes_array each
  | object ms each => exact passes_object each

/-- Exactly the trees are passed over. -/
theorem passValue_of_woven {t : Tree} (woven : Woven t.tokens text rest) (follows : Follows rest) :
    passValue text = .ok rest := by
  have ended : Runs round (closing []) rest (.ok ((), rest)) := .done rfl
  rw [passValue_eq, (passes t [] text rest _ woven follows ended).loop]
  rfl

end Complete

end Pass

section Unique

variable {t t' : Tree} {text rest rest' : List Char}

theorem Tree.rest_unique (woven : Woven t.tokens text rest) (woven' : Woven t'.tokens text rest')
    (follows : Follows rest) (follows' : Follows rest') : rest = rest' := by
  have passed := Pass.passValue_of_woven woven follows
  rw [Pass.passValue_of_woven woven' follows'] at passed
  exact (Except.ok.inj passed).symm

theorem IsScalar.ne_bracket {token : List Char} {c : Char} {later : List Char} (h : IsScalar token)
    (first : token = c :: later) : c ≠ '[' ∧ c ≠ '{' := by
  cases h with
  | null | true | false | string =>
    cases first
    decide
  | number spells =>
    obtain ⟨_, _, same, numeric⟩ := spells.exists_opening
    obtain ⟨rfl, -⟩ := List.cons.inj (first.symm.trans same)
    constructor <;>
      · rintro rfl
        rcases numeric with minus | digit
        · cases minus
        · cases digit

theorem skipSpace_of_scalar {s : Scalar} (woven : Woven (Tree.scalar s).tokens text rest) :
    skipSpace text = s.token ++ rest := by
  obtain ⟨c, later, same, opens⟩ := s.isScalar.exists_opening
  rw [Tree.tokens, same] at woven
  obtain ⟨_, shape, ⟨⟩⟩ := woven.skipSpace opens.1
  rw [shape, same]
  rfl

theorem Tree.unique_scalar {s : Scalar} (woven : Woven (Tree.scalar s).tokens text rest)
    (woven' : Woven t'.tokens text rest) : .scalar s = t' := by
  have shape := skipSpace_of_scalar woven
  obtain ⟨c, later, same, -⟩ := s.isScalar.exists_opening
  have bracket := s.isScalar.ne_bracket same
  rw [same] at shape
  cases t' with
  | scalar s' =>
    rw [skipSpace_of_scalar woven', ← same] at shape
    rw [Scalar.ext (List.append_cancel_right shape)]
  | array ts =>
    rw [Tree.tokens] at woven'
    obtain ⟨_, shape', -⟩ := woven'.skipSpace rfl
    exact absurd (List.cons.inj (shape.symm.trans shape')).1 bracket.1
  | object ms =>
    rw [Tree.tokens] at woven'
    obtain ⟨_, shape', -⟩ := woven'.skipSpace rfl
    exact absurd (List.cons.inj (shape.symm.trans shape')).1 bracket.2

theorem Tree.unique_items {ts ts' : List Tree} {first : Bool}
    (each : ∀ t ∈ ts, ∀ t' text rest, Woven t.tokens text rest → Woven t'.tokens text rest → t = t')
    (woven : Woven (Tree.itemTokens first ts) text rest) (woven' : Woven (Tree.itemTokens first ts') text rest) :
    ts = ts' := by
  induction ts generalizing ts' first text with
  | nil =>
    obtain ⟨_, next, -⟩ := nextItem_end woven
    cases ts' with
    | nil => rfl
    | cons t' ts' =>
      obtain ⟨_, _, next', -⟩ := nextItem_item woven'
      cases next.symm.trans next'
  | cons t ts ih =>
    obtain ⟨unique, others⟩ := List.forall_mem_cons.1 each
    obtain ⟨item, later, next, woven, behind, -⟩ := nextItem_item woven
    cases ts' with
    | nil =>
      obtain ⟨_, next', -⟩ := nextItem_end woven'
      cases next.symm.trans next'
    | cons t' ts' =>
      obtain ⟨item', later', next', woven', behind', -⟩ := nextItem_item woven'
      cases next.symm.trans next'
      obtain rfl := Tree.rest_unique woven woven' (follows_items behind) (follows_items behind')
      rw [unique t' _ _ woven woven', ih others behind behind']

theorem Tree.unique_members {ms ms' : List (Name × Tree)} {first : Bool}
    (each : ∀ m ∈ ms, ∀ t' text rest, Woven m.2.tokens text rest → Woven t'.tokens text rest → m.2 = t')
    (woven : Woven (Tree.memberTokens first ms) text rest) (woven' : Woven (Tree.memberTokens first ms') text rest) :
    ms = ms' := by
  induction ms generalizing ms' first text with
  | nil =>
    cases ms' with
    | nil => rfl
    | cons m' ms' =>
      obtain ⟨_, _, _, next', -⟩ := nextName_member woven'
      cases (nextName_end woven).symm.trans next'
  | cons m ms ih =>
    obtain ⟨name, t⟩ := m
    obtain ⟨unique, others⟩ := List.forall_mem_cons.1 each
    obtain ⟨after, value, later, next, mark, woven, behind, -⟩ := nextName_member woven
    cases ms' with
    | nil => cases next.symm.trans (nextName_end woven')
    | cons m' ms' =>
      obtain ⟨name', t'⟩ := m'
      obtain ⟨after', value', later', next', mark', woven', behind', -⟩ := nextName_member woven'
      have written := (Prod.mk.inj (Except.ok.inj (next.symm.trans next'))).2
      obtain ⟨sameName, rfl⟩ := name.inString.unique name'.inString written
      cases mark.symm.trans mark'
      obtain rfl := Tree.rest_unique woven woven' (follows_members behind) (follows_members behind')
      have sameTree : t = t' := unique t' _ _ woven woven'
      rw [Name.ext sameName, sameTree, ih others behind behind']

/-- No text spells two trees. -/
theorem Tree.unique (woven : Woven t.tokens text rest) (woven' : Woven t'.tokens text rest) : t = t' := by
  induction t using Tree.induct generalizing t' text rest with
  | scalar s => exact unique_scalar woven woven'
  | array ts each =>
    cases t' with
    | scalar s => exact (unique_scalar woven' woven).symm
    | array ts' =>
      obtain ⟨inside, head, woven⟩ := Head.read_array woven
      obtain ⟨inside', head', woven'⟩ := Head.read_array woven'
      cases head.symm.trans head'
      rw [unique_items (fun t mem _ _ _ => each t mem) woven woven']
    | object ms =>
      obtain ⟨_, head, -⟩ := Head.read_array woven
      obtain ⟨_, head', -⟩ := Head.read_object woven'
      cases head.symm.trans head'
  | object ms each =>
    cases t' with
    | scalar s => exact (unique_scalar woven' woven).symm
    | array ts =>
      obtain ⟨_, head, -⟩ := Head.read_object woven
      obtain ⟨_, head', -⟩ := Head.read_array woven'
      cases head.symm.trans head'
    | object ms' =>
      obtain ⟨inside, head, woven⟩ := Head.read_object woven
      obtain ⟨inside', head', woven'⟩ := Head.read_object woven'
      cases head.symm.trans head'
      rw [unique_members (fun m mem _ _ _ => each m mem) woven woven']

end Unique

end SpeechMarkup.Json
