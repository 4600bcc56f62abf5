import SpeechMarkup.Proofs.Numeral
import SpeechMarkup.Quantity.Duration

/-! The grammar of durations beside their reader. A finite duration is written in milliseconds, in seconds, or on the
google platform as a bare number of seconds, and lasts the whole milliseconds of the exact number. A text is refused
where it has none of these forms, and where it lasts longer than durations last. -/

namespace SpeechMarkup

/-- The length in milliseconds that a text spells. -/
inductive Lasts (platform : Platform) : List Char → Nat → Prop
  | milliseconds {digits : List Char} : isDigits digits = true →
    Lasts platform (digits ++ ['m', 's']) (Decimal.ofDigits digits)
  | seconds {n : Numeral} : n.WellFormed → Lasts platform (n.text ++ ['s']) ⌊1000 * n.value⌋₊
  | bare {n : Numeral} : platform = .google → n.WellFormed → Lasts platform n.text ⌊1000 * n.value⌋₊

/-- A duration without a ceiling: `infinity`, or a length that durations reach. -/
def IsDuration (platform : Platform) (text : String) : Prop :=
  text = "infinity" ∨ ∃ millis, Lasts platform text.toList millis ∧ millis ≤ Duration.longest

def IsDurationUpTo (ceiling : Nat) (platform : Platform) (text : String) : Prop :=
  ∃ millis, Lasts platform text.toList millis ∧ millis ≤ ceiling

theorem not_mem_text_of_letter {n : Numeral} (h : n.WellFormed) {c : Char} (letter : c.isDigit = false)
    (notPoint : c ≠ '.') : c ∉ n.text := by
  intro mem
  rcases n.mem_text h mem with digit | point
  · rw [letter] at digit
    cases digit
  · exact notPoint point

theorem isSuffixOf?_eq_none {unit cs : List Char} (h : ∀ front, front ++ unit ≠ cs) : unit.isSuffixOf? cs = none := by
  rw [Option.eq_none_iff_forall_ne_some]
  intro front
  rw [Ne, List.isSuffixOf?_eq_some_iff_append_eq]
  exact h front

namespace Duration

variable {platform : Platform}

theorem lasts_of_millis? {cs : List Char} {millis : Nat} (h : millis? platform cs = some millis) :
    Lasts platform cs millis := by
  have whole {text : List Char} (read : (Numeral.read? text).map Numeral.thousandfold = some millis) :
      ∃ n : Numeral, n.WellFormed ∧ n.text = text ∧ ⌊1000 * n.value⌋₊ = millis := by
    obtain ⟨n, numeral, rfl⟩ := Option.map_eq_some_iff.1 read
    obtain ⟨wellFormed, same⟩ := Numeral.read?_eq_some_iff.1 numeral
    exact ⟨n, wellFormed, same, (Numeral.thousandfold_eq_floor wellFormed).symm⟩
  unfold millis? at h
  split at h
  · next count _ suffix =>
    rw [List.isSuffixOf?_eq_some_iff_append_eq] at suffix
    split at h
    · next digits =>
      cases h
      exact suffix ▸ .milliseconds digits
    · cases h
  · next seconds _ suffix =>
    rw [List.isSuffixOf?_eq_some_iff_append_eq] at suffix
    obtain ⟨n, wellFormed, rfl, rfl⟩ := whole h
    exact suffix ▸ .seconds wellFormed
  · split at h
    · next google =>
      obtain ⟨n, wellFormed, rfl, rfl⟩ := whole h
      exact .bare google wellFormed
    · cases h

/-- No numeral ends in a letter, so the forms of durations exclude each other. -/
theorem millis?_of_lasts {cs : List Char} {millis : Nat} (h : Lasts platform cs millis) :
    millis? platform cs = some millis := by
  cases h with
  | @milliseconds digits all =>
    have suffix : ['m', 's'].isSuffixOf? (digits ++ ['m', 's']) = some digits := by
      rw [List.isSuffixOf?_eq_some_iff_append_eq]
    simp only [millis?, suffix, all, if_true]
  | @seconds n wellFormed =>
    have notMillis : ['m', 's'].isSuffixOf? (n.text ++ ['s']) = none := isSuffixOf?_eq_none fun front same => by
      have : front ++ ['m'] = n.text := by
        have : (front ++ ['m']) ++ ['s'] = n.text ++ ['s'] := by simpa using same
        exact List.append_cancel_right this
      exact not_mem_text_of_letter wellFormed (c := 'm') rfl (by decide) (this ▸ by simp)
    have suffix : ['s'].isSuffixOf? (n.text ++ ['s']) = some n.text := by
      rw [List.isSuffixOf?_eq_some_iff_append_eq]
    simp only [millis?, notMillis, suffix, Numeral.read?_text wellFormed, Option.map_some,
      Numeral.thousandfold_eq_floor wellFormed]
  | @bare n google wellFormed =>
    have noLetter : 's' ∉ n.text := not_mem_text_of_letter wellFormed rfl (by decide)
    have notMillis : ['m', 's'].isSuffixOf? n.text = none :=
      isSuffixOf?_eq_none fun front same => noLetter (same ▸ by simp)
    have notSeconds : ['s'].isSuffixOf? n.text = none :=
      isSuffixOf?_eq_none fun front same => noLetter (same ▸ by simp)
    simp only [millis?, notMillis, notSeconds, if_pos google, Numeral.read?_text wellFormed, Option.map_some,
      Numeral.thousandfold_eq_floor wellFormed]

theorem millis?_eq_some_iff {cs : List Char} {millis : Nat} :
    millis? platform cs = some millis ↔ Lasts platform cs millis :=
  ⟨lasts_of_millis?, millis?_of_lasts⟩

theorem millis?_infinity : millis? platform "infinity".toList = none := by
  cases platform <;> rfl

theorem isOk_parse_none {text : String} : (parse text platform none).isOk = true ↔ IsDuration platform text := by
  unfold parse IsDuration
  split
  · next infinite => simp [infinite, Except.isOk, Except.toBool]
  · next finite =>
    simp only [finite, false_or, ← millis?_eq_some_iff]
    cases read : millis? platform text.toList with
    | none => simp [Except.isOk, Except.toBool]
    | some millis =>
      by_cases long : longest < millis
      · simp [long, Except.isOk, Except.toBool]
      · simp [long, Except.isOk, Except.toBool, Nat.not_lt.1 long]

theorem isOk_parse_some {text : String} {ceiling : Nat} (low : ceiling ≤ longest) :
    (parse text platform (some ceiling)).isOk = true ↔ IsDurationUpTo ceiling platform text := by
  unfold parse IsDurationUpTo
  simp only [← millis?_eq_some_iff]
  split
  · next infinite =>
    subst infinite
    rw [millis?_infinity]
    simp [Except.isOk, Except.toBool]
  · cases read : millis? platform text.toList with
    | none => simp [Except.isOk, Except.toBool]
    | some millis =>
      by_cases long : longest < millis
      · have : ¬ millis ≤ ceiling := by omega
        simp [long, Except.isOk, Except.toBool, this]
      · by_cases above : ceiling < millis
        · simp [long, above, Except.isOk, Except.toBool]
        · simp [long, above, Except.isOk, Except.toBool, Nat.not_lt.1 above]

end Duration

end SpeechMarkup
