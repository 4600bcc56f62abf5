import SpeechMarkup.Proofs.TimeFormat

/-! The tokens of time formats. What token a text begins with is given by the text, as no token is the front of another
one, and a text has one row of tokens at most. The scan takes off the tokens of this row round by round, each round at
least one character. A text may be cut anywhere but through a clock mark: it is a time format where both parts are. -/

namespace SpeechMarkup

namespace TimeFormat

/-- The token that a text begins with, and the text behind it. Clock marks are looked for first. -/
def next? : List Char → Option (List Char × List Char)
  | [] => none
  | '1' :: '2' :: rest => some (['1', '2'], rest)
  | '2' :: '4' :: rest => some (['2', '4'], rest)
  | c :: rest => if isTimeMark c then some ([c], rest) else none

/-- A scan from left to right: the tokens that are taken off, one in each round, and the answer that it ends with. -/
inductive Scan : List Char → List (List Char) → Bool → Prop where
  | finished : Scan [] [] true
  | stuck {c : Char} {rest : List Char} (none : next? (c :: rest) = none) : Scan (c :: rest) [] false
  | token {text token rest : List Char} {tokens : List (List Char)} {answer : Bool}
      (next : next? text = some (token, rest)) (shorter : rest.length < text.length) (later : Scan rest tokens answer) :
      Scan text (token :: tokens) answer

/-- These are the tokens of the text, from its beginning to its end. -/
structure Row (tokens : List (List Char)) (text : List Char) : Prop where
  each : ∀ token ∈ tokens, TimeToken token
  flatten : tokens.flatten = text

def IsClockMark (c d : Char) : Prop :=
  c = '1' ∧ d = '2' ∨ c = '2' ∧ d = '4'

/-- The characters on both sides of a cut make up a clock mark. -/
def CutsMark (front behind : List Char) : Prop :=
  ∃ before c d after, front = before ++ [c] ∧ behind = d :: after ∧ IsClockMark c d

variable {text token rest front behind : List Char} {tokens : List (List Char)} {answer : Bool}

theorem isTimeMark_ne_digit {c : Char} (mark : isTimeMark c = true) : c ≠ '1' ∧ c ≠ '2' := by
  constructor <;>
  · rintro rfl
    revert mark
    decide

theorem next?_mark {c : Char} (mark : isTimeMark c = true) (rest : List Char) :
    next? (c :: rest) = some ([c], rest) := by
  obtain ⟨notOne, notTwo⟩ := isTimeMark_ne_digit mark
  unfold next?
  split
  · next empty => cases empty
  · next same => exact absurd (List.cons.inj same).1 notOne
  · next same => exact absurd (List.cons.inj same).1 notTwo
  · next same =>
    obtain ⟨rfl, rfl⟩ := List.cons.inj same
    rw [if_pos mark]

theorem next?_eq_some_iff : next? text = some (token, rest) ↔ TimeToken token ∧ text = token ++ rest := by
  constructor
  · intro h
    unfold next? at h
    split at h
    · cases h
    · cases h
      exact ⟨.twelve, rfl⟩
    · cases h
      exact ⟨.twentyFour, rfl⟩
    · split at h
      · next mark =>
        cases h
        exact ⟨isTimeMark_iff.1 mark, rfl⟩
      · cases h
  · rintro ⟨isToken, rfl⟩
    cases isToken with
    | twelve => rfl
    | twentyFour => rfl
    | field h => exact next?_mark (isTimeMark_iff.2 (.field h)) rest
    | blank h => exact next?_mark (isTimeMark_iff.2 (.blank h)) rest

theorem isTimeFormat_eq_false_of_next? {c : Char} (none : next? (c :: rest) = none) :
    isTimeFormat (c :: rest) = false := by
  rw [← Bool.not_eq_true, isTimeFormat_iff]
  rintro ⟨_ | ⟨token, tokens⟩, each, same⟩
  · cases same
  · have begins : next? (c :: rest) = some (token, tokens.flatten) :=
      next?_eq_some_iff.2 ⟨each token List.mem_cons_self, same.symm⟩
    rw [none] at begins
    cases begins

theorem length_lt_of_isToken (isToken : TimeToken token) (rest : List Char) : rest.length < (token ++ rest).length := by
  cases isToken <;> simp only [List.length_append, List.length_cons, List.length_nil] <;> omega

theorem exists_scan (text : List Char) : ∃ tokens answer, Scan text tokens answer := by
  induction size : text.length using Nat.strongRecOn generalizing text with
  | _ size ih =>
    subst size
    cases text with
    | nil => exact ⟨[], true, .finished⟩
    | cons c text =>
      cases next : next? (c :: text) with
      | none => exact ⟨[], false, .stuck next⟩
      | some taken =>
        obtain ⟨token, rest⟩ := taken
        obtain ⟨isToken, same⟩ := next?_eq_some_iff.1 next
        have shorter : rest.length < (c :: text).length := same ▸ length_lt_of_isToken isToken rest
        obtain ⟨tokens, answer, scan⟩ := ih rest.length shorter rest rfl
        exact ⟨token :: tokens, answer, .token next shorter scan⟩

theorem Scan.answer_eq (scan : Scan text tokens answer) : answer = isTimeFormat text := by
  induction scan with
  | finished => rfl
  | stuck none => exact (isTimeFormat_eq_false_of_next? none).symm
  | token next _ _ ih =>
    obtain ⟨isToken, rfl⟩ := next?_eq_some_iff.1 next
    rw [isTimeFormat_token isToken, ih]

theorem Scan.length_le (scan : Scan text tokens answer) : tokens.length ≤ text.length := by
  induction scan with
  | finished | stuck => exact Nat.zero_le _
  | token _ shorter _ ih => exact Nat.lt_of_le_of_lt ih shorter

theorem scan_true_iff : Scan text tokens true ↔ Row tokens text := by
  constructor
  · intro scan
    generalize yes : true = answer at scan
    induction scan with
    | finished => exact ⟨List.forall_mem_nil _, rfl⟩
    | stuck => cases yes
    | token next _ _ ih =>
      obtain ⟨isToken, rfl⟩ := next?_eq_some_iff.1 next
      obtain ⟨each, flatten⟩ := ih yes
      exact ⟨List.forall_mem_cons.2 ⟨isToken, each⟩, by rw [List.flatten_cons, flatten]⟩
  · rintro ⟨each, rfl⟩
    induction tokens with
    | nil => exact .finished
    | cons token tokens ih =>
      obtain ⟨isToken, others⟩ := List.forall_mem_cons.1 each
      exact .token (next?_eq_some_iff.2 ⟨isToken, rfl⟩) (length_lt_of_isToken isToken _) (ih others)

theorem Row.unique {other : List (List Char)} (row : Row tokens text) (row' : Row other text) : tokens = other := by
  obtain ⟨each, rfl⟩ := row
  obtain ⟨each', same⟩ := row'
  induction tokens generalizing other with
  | nil =>
    cases other with
    | nil => rfl
    | cons token other =>
      have := length_lt_of_isToken (each' token List.mem_cons_self) other.flatten
      rw [← List.flatten_cons, same] at this
      cases this
  | cons token tokens ih =>
    obtain ⟨isToken, others⟩ := List.forall_mem_cons.1 each
    have begins : next? (token :: tokens).flatten = some (token, tokens.flatten) :=
      next?_eq_some_iff.2 ⟨isToken, rfl⟩
    cases other with
    | nil =>
      rw [← same] at begins
      cases begins
    | cons token' other =>
      obtain ⟨isToken', others'⟩ := List.forall_mem_cons.1 each'
      have begins' : next? (token :: tokens).flatten = some (token', other.flatten) :=
        next?_eq_some_iff.2 ⟨isToken', same.symm⟩
      obtain ⟨rfl, behind⟩ := Prod.mk.inj (Option.some.inj (begins.symm.trans begins'))
      rw [ih others others' behind.symm]

theorem isClockMark_of_cut {c d : Char} {cut more : List Char} (isToken : TimeToken (c :: cut ++ d :: more)) :
    cut = [] ∧ more = [] ∧ IsClockMark c d := by
  generalize whole : c :: cut ++ d :: more = token at isToken
  rw [List.cons_append] at whole
  cases isToken with
  | twelve =>
    obtain ⟨rfl, one⟩ := List.cons.inj whole
    obtain ⟨rfl, same⟩ | ⟨_, -, same⟩ := List.append_eq_cons_iff.1 one
    · obtain ⟨rfl, rfl⟩ := List.cons.inj same
      exact ⟨rfl, rfl, .inl ⟨rfl, rfl⟩⟩
    · simp at same
  | twentyFour =>
    obtain ⟨rfl, four⟩ := List.cons.inj whole
    obtain ⟨rfl, same⟩ | ⟨_, -, same⟩ := List.append_eq_cons_iff.1 four
    · obtain ⟨rfl, rfl⟩ := List.cons.inj same
      exact ⟨rfl, rfl, .inr ⟨rfl, rfl⟩⟩
    · simp at same
  | field | blank => simp at whole

theorem timeToken_of_isClockMark {c d : Char} (mark : IsClockMark c d) : TimeToken [c, d] := by
  rcases mark with ⟨rfl, rfl⟩ | ⟨rfl, rfl⟩
  · exact .twelve
  · exact .twentyFour

theorem isTimeFormat_append (first : isTimeFormat front = true) (second : isTimeFormat behind = true) :
    isTimeFormat (front ++ behind) = true := by
  rw [isTimeFormat_iff] at first second ⊢
  obtain ⟨tokens, each, rfl⟩ := first
  obtain ⟨others, each', rfl⟩ := second
  exact ⟨tokens ++ others, List.forall_mem_append.2 ⟨each, each'⟩, List.flatten_append⟩

theorem isTimeFormat_append_iff : isTimeFormat (front ++ behind) = true ↔
    isTimeFormat front = true ∧ isTimeFormat behind = true ∨
      ∃ before c d after, front = before ++ [c] ∧ behind = d :: after ∧ IsClockMark c d ∧
        isTimeFormat before = true ∧ isTimeFormat after = true := by
  constructor
  · intro h
    obtain ⟨tokens, each, same⟩ := isTimeFormat_iff.1 h
    have accepted {row : List (List Char)} (all : ∀ token ∈ row, TimeToken token) :
        isTimeFormat row.flatten = true :=
      isTimeFormat_iff.2 ⟨row, all, rfl⟩
    obtain ⟨ts, us, rfl, rfl, rfl⟩ | ⟨ts, cut, d, more, us, rfl, rfl, rfl⟩ := List.flatten_eq_append_iff.1 same
    · obtain ⟨first, second⟩ := List.forall_mem_append.1 each
      exact .inl ⟨accepted first, accepted second⟩
    · -- The cut stands before a token of the row, or goes through it.
      obtain ⟨first, later⟩ := List.forall_mem_append.1 each
      obtain ⟨isToken, second⟩ := List.forall_mem_cons.1 later
      cases cut with
      | nil =>
        rw [List.append_nil]
        exact .inl ⟨accepted first, (isTimeFormat_token isToken _).trans (accepted second)⟩
      | cons c cut =>
        obtain ⟨rfl, rfl, mark⟩ := isClockMark_of_cut isToken
        exact .inr ⟨_, c, d, _, rfl, rfl, mark, accepted first, accepted second⟩
  · rintro (⟨first, second⟩ | ⟨before, c, d, after, rfl, rfl, mark, first, second⟩)
    · exact isTimeFormat_append first second
    · rw [List.append_assoc]
      exact isTimeFormat_append first ((isTimeFormat_token (timeToken_of_isClockMark mark) after).trans second)

/-- A text is a time format if it is a row of tokens, and there is no other row of tokens in it. The scan from left to
right takes off just these tokens, one in each round, and it ends after so many rounds at most as there are characters,
whatever the text. Cut anywhere but through a clock mark, a text is a time format where both of its parts are. -/
theorem isTimeFormat_iff_row :
    (∀ text : String, isTimeFormat text.toList = true ↔ ∃ tokens, Row tokens text.toList) ∧
    (∀ (text : String) (tokens other : List (List Char)),
      Row tokens text.toList → Row other text.toList → tokens = other) ∧
    (∀ text : String, (∃ tokens answer, Scan text.toList tokens answer) ∧
      ∀ tokens answer, Scan text.toList tokens answer →
        answer = isTimeFormat text.toList ∧ tokens.length ≤ text.toList.length) ∧
    (∀ (text : String) (tokens : List (List Char)), Scan text.toList tokens true ↔ Row tokens text.toList) ∧
    ∀ front behind : String, ¬ CutsMark front.toList behind.toList →
      (isTimeFormat (front ++ behind).toList = true ↔
        isTimeFormat front.toList = true ∧ isTimeFormat behind.toList = true) := by
  refine ⟨fun text => ?_, fun text tokens other => Row.unique,
    fun text => ⟨exists_scan _, fun tokens answer scan => ⟨scan.answer_eq, scan.length_le⟩⟩,
    fun text tokens => scan_true_iff, fun front behind whole => ?_⟩
  · rw [isTimeFormat_iff]
    exact ⟨fun ⟨tokens, each, flatten⟩ => ⟨tokens, each, flatten⟩,
      fun ⟨tokens, each, flatten⟩ => ⟨tokens, each, flatten⟩⟩
  · rw [String.toList_append, isTimeFormat_append_iff]
    refine or_iff_left ?_
    rintro ⟨before, c, d, after, cut, more, mark, -, -⟩
    exact whole ⟨before, c, d, after, cut, more, mark⟩

/-- In `h12 24` the cut stands before the second clock mark, and `1` and `2` of the first one stay together. -/
theorem isTimeFormat_iff_row_marks :
    let row := [['h'], ['1', '2'], [' '], ['2', '4']]
    Row row "h12 24".toList ∧ isTimeFormat "h12 24".toList = true ∧ Scan "h12 24".toList row true ∧
      (∀ other, Row other "h12 24".toList → row = other) ∧ ¬ CutsMark "h12 ".toList "24".toList ∧
      (isTimeFormat ("h12 " ++ "24").toList = true ↔
        isTimeFormat "h12 ".toList = true ∧ isTimeFormat "24".toList = true) := by
  intro row
  have tokens : Row row "h12 24".toList := by
    refine ⟨?_, rfl⟩
    simp only [row, List.forall_mem_cons]
    exact ⟨.field (by simp), .twelve, .blank rfl, .twentyFour, List.forall_mem_nil _⟩
  have apart : ¬ CutsMark "h12 ".toList "24".toList := by
    rintro ⟨before, c, d, after, cut, more, mark⟩
    have last : c = ' ' := by
      have := congrArg List.getLast? cut
      simpa [eq_comm] using this
    subst last
    rcases mark with ⟨no, -⟩ | ⟨no, -⟩ <;> simp at no
  obtain ⟨language, unique, -, scan, cut⟩ := isTimeFormat_iff_row
  exact ⟨tokens, (language _).2 ⟨row, tokens⟩, (scan _ _).2 tokens, fun other => unique _ _ _ tokens, apart,
    cut _ _ apart⟩

end TimeFormat

end SpeechMarkup
