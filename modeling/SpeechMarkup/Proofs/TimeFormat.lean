import SpeechMarkup.Quantity.Time

/-! The grammar of time formats: rows of tokens, each of them a clock mark or a single mark. The scan from left to
right accepts exactly these rows, since no single mark begins a clock mark. -/

namespace SpeechMarkup

inductive TimeToken : List Char → Prop
  | twelve : TimeToken ['1', '2']
  | twentyFour : TimeToken ['2', '4']
  | field {c : Char} : c ∈ ['h', 'm', 's', 'Z', '^', '.', '!', '?', ':', ';'] → TimeToken [c]
  | blank {c : Char} : Text.isBlank c = true → TimeToken [c]

/-- A row of tokens, which may be empty. -/
def IsTimeFormat (cs : List Char) : Prop :=
  ∃ tokens : List (List Char), (∀ token ∈ tokens, TimeToken token) ∧ tokens.flatten = cs

theorem isTimeMark_iff {c : Char} : isTimeMark c = true ↔ TimeToken [c] := by
  constructor
  · intro h
    rcases Bool.or_eq_true_iff.1 h with field | blank
    · exact .field (of_decide_eq_true field)
    · exact .blank blank
  · intro h
    cases h with
    | field h => simp [isTimeMark, h]
    | blank h => simp [isTimeMark, h]

theorem isTimeFormat_token {token : List Char} (h : TimeToken token) (rest : List Char) :
    isTimeFormat (token ++ rest) = isTimeFormat rest := by
  cases h with
  | twelve => rfl
  | twentyFour => rfl
  | field h | blank h =>
    next c =>
    have mark : isTimeMark c = true := by simp [isTimeMark, h]
    have notOne : c ≠ '1' := by
      rintro rfl
      revert mark
      decide
    have notTwo : c ≠ '2' := by
      rintro rfl
      revert mark
      decide
    rw [List.cons_append, List.nil_append, isTimeFormat.eq_def]
    split
    · next empty => cases empty
    · next same => exact absurd (List.cons.inj same).1 notOne
    · next same => exact absurd (List.cons.inj same).1 notTwo
    · next same =>
      obtain ⟨rfl, rfl⟩ := List.cons.inj same
      rw [mark, Bool.true_and]

theorem isTimeFormat_iff {cs : List Char} : isTimeFormat cs = true ↔ IsTimeFormat cs := by
  constructor
  · intro h
    fun_induction isTimeFormat cs with
    | case1 => exact ⟨[], by simp, rfl⟩
    | case2 rest ih =>
      obtain ⟨tokens, all, rfl⟩ := ih h
      exact ⟨['1', '2'] :: tokens, by simpa using ⟨.twelve, all⟩, rfl⟩
    | case3 rest ih =>
      obtain ⟨tokens, all, rfl⟩ := ih h
      exact ⟨['2', '4'] :: tokens, by simpa using ⟨.twentyFour, all⟩, rfl⟩
    | case4 c rest _ _ ih =>
      obtain ⟨mark, scanned⟩ := Bool.and_eq_true_iff.1 h
      obtain ⟨tokens, all, rfl⟩ := ih scanned
      exact ⟨[c] :: tokens, by simpa using ⟨isTimeMark_iff.1 mark, all⟩, rfl⟩
  · rintro ⟨tokens, all, rfl⟩
    induction tokens with
    | nil => rfl
    | cons token tokens ih =>
      rw [List.flatten_cons, isTimeFormat_token (all token List.mem_cons_self)]
      exact ih fun t ht => all t (List.mem_cons_of_mem _ ht)

end SpeechMarkup
