import SpeechMarkup.Json.Printer
import SpeechMarkup.Json.Text

/-! Loops of readers. A loop is followed round by round as long as each round takes something off the text, and what
every round keeps holds of the result. The first loop that is followed reads a string: written between quotes, with
its escapes, every string is read back. -/

namespace SpeechMarkup.Json

section Except

variable {ε α β : Type}

@[simp] theorem ok_bind (a : α) (f : α → Except ε β) : (Except.ok a >>= f) = f a := rfl

@[simp] theorem error_bind (e : ε) (f : α → Except ε β) : (Except.error e >>= f) = Except.error e := rfl

theorem bind_eq_ok_iff {x : Except ε α} {f : α → Except ε β} {b : β} :
    (x >>= f) = .ok b ↔ ∃ a, x = .ok a ∧ f a = .ok b := by
  cases x <;> simp

theorem map_eq_ok_iff {x : Except ε α} {f : α → β} {b : β} : x.map f = .ok b ↔ ∃ a, x = .ok a ∧ f a = b := by
  cases x <;> simp [Except.map]

end Except

section Loop

variable {σ α : Type} {round : σ → Reader (Round σ α)}

/-- From this state and this text on the rounds come to this result, and each but the last takes something off the
text. -/
inductive Runs (round : σ → Reader (Round σ α)) : σ → List Char → Except ReadError (α × List Char) → Prop where
  | done {state : σ} {text rest : List Char} {result : α} (h : round state text = .ok (.done result, rest)) :
      Runs round state text (.ok (result, rest))
  | fail {state : σ} {text : List Char} {e : ReadError} (h : round state text = .error e) :
      Runs round state text (.error e)
  | again {state next : σ} {text rest : List Char} {result : Except ReadError (α × List Char)}
      (h : round state text = .ok (.again next, rest)) (shorter : rest.length < text.length)
      (later : Runs round next rest result) : Runs round state text result

theorem Runs.rounds {state : σ} {text : List Char} {result : Except ReadError (α × List Char)}
    (h : Runs round state text result) {bound : List Char} (enough : text.length ≤ bound.length) :
    rounds round bound state text = result := by
  induction h generalizing bound with
  | done h => rw [Json.rounds, h]
  | fail h => rw [Json.rounds, h]
  | again h shorter _ ih =>
    rw [Json.rounds, h]
    cases bound with
    | nil =>
      simp only [List.length_nil] at enough
      omega
    | cons c bound =>
      simp only [List.length_cons] at enough
      exact ih (by omega)

theorem Runs.loop {state : σ} {text : List Char} {result : Except ReadError (α × List Char)}
    (h : Runs round state text result) : loop round state text = result :=
  h.rounds (Nat.le_refl _)

def Round.Meets (P : σ → Prop) (Q : α → Prop) : Round σ α → Prop
  | again state => P state
  | done result => Q result

theorem rounds_induct {P : σ → List Char → Prop} {bound : List Char} {state : σ} {text rest : List Char} {result : α}
    (h : rounds round bound state text = .ok (result, rest))
    (done : ∀ state text, round state text = .ok (.done result, rest) → P state text)
    (again : ∀ state text next mid, round state text = .ok (.again next, mid) → P next mid → P state text) :
    P state text := by
  induction bound generalizing state text with
  | nil =>
    rw [rounds] at h
    split at h
    · cases h
    · next ended =>
      cases h
      exact done _ _ ended
    · cases h
  | cons c bound ih =>
    rw [rounds] at h
    split at h
    · cases h
    · next ended =>
      cases h
      exact done _ _ ended
    · next goesOn => exact again _ _ _ _ goesOn (ih h)

/-- What holds where a loop is done, and before a round wherever it holds after it, holds at the start. -/
theorem loop_induct {P : σ → List Char → Prop} {state : σ} {text rest : List Char} {result : α}
    (h : loop round state text = .ok (result, rest))
    (done : ∀ state text, round state text = .ok (.done result, rest) → P state text)
    (again : ∀ state text next mid, round state text = .ok (.again next, mid) → P next mid → P state text) :
    P state text :=
  rounds_induct h done again

theorem loop_keeps {P : σ → Prop} {Q : α → Prop}
    (step : ∀ state text outcome rest, P state → round state text = .ok (outcome, rest) → outcome.Meets P Q)
    {state : σ} {text rest : List Char} {result : α} (start : P state)
    (h : loop round state text = .ok (result, rest)) : Q result :=
  loop_induct (P := fun state _ => P state → Q result) h (fun _ _ ended kept => step _ _ _ _ kept ended)
    (fun _ _ _ _ goesOn later kept => later (step _ _ _ _ kept goesOn)) start

end Loop

section Strings

theorem hexDigit?_digitChar {n : Nat} (h : n < 16) : hexDigit? (Nat.digitChar n) = some n := by
  have all : ∀ n < 16, hexDigit? (Nat.digitChar n) = some n := by decide
  exact all n h

theorem unicodeEscape_control {c : Char} (h : c < ' ') (text : List Char) :
    unicodeEscape ('0' :: '0' :: Nat.digitChar (c.toNat / 16) :: Nat.digitChar (c.toNat % 16) :: text) =
      .ok (c, text) := by
  have small : c.toNat < 32 := h
  have zero : hexDigit? '0' = some 0 := rfl
  have first := hexDigit?_digitChar (n := c.toNat / 16) (by omega)
  have second := hexDigit?_digitChar (n := c.toNat % 16) (by omega)
  have unit : c.toNat / 16 * 16 + c.toNat % 16 = c.toNat := by omega
  have trailing : isTrailingSurrogate c.toNat = false := by simp [isTrailingSurrogate]; omega
  have leading : isLeadingSurrogate c.toNat = false := by simp [isLeadingSurrogate]; omega
  simp [unicodeEscape, hexUnit, zero, first, second, unit, trailing, leading, pure, Except.pure]

theorem stringChar_escapeChar (c : Char) (text : List Char) :
    stringChar (escapeChar c ++ text) = .ok (some c, text) := by
  fun_cases escapeChar c with
  | case8 _ control =>
    rw [if_pos control]
    exact congrArg (Except.map _) (unicodeEscape_control control text)
  | case9 _ plain quote backslash =>
    simp only [if_neg plain, List.singleton_append, stringChar]
    rw [if_neg quote, if_neg backslash]
  | _ => rfl

theorem length_escapeChar_pos (c : Char) : 0 < (escapeChar c).length := by
  fun_cases escapeChar c <;> simp [*]

theorem stringBody_text (s : String) (rest : List Char) :
    stringBody (s.toList.flatMap escapeChar ++ '"' :: rest) = .ok (s, rest) := by
  unfold stringBody
  extract_lets round
  have runs : ∀ cs before : List Char, Runs round before (cs.flatMap escapeChar ++ '"' :: rest)
      (.ok (String.ofList (before.reverse ++ cs), rest)) := by
    intro cs
    induction cs with
    | nil =>
      intro before
      rw [List.append_nil]
      exact .done rfl
    | cons c cs ih =>
      intro before
      have step : round before ((c :: cs).flatMap escapeChar ++ '"' :: rest) =
          .ok (.again (c :: before), cs.flatMap escapeChar ++ '"' :: rest) := by
        simp only [round, List.flatMap_cons, List.append_assoc, stringChar_escapeChar, ok_bind]
        rfl
      refine .again step ?_ (by simpa using ih (c :: before))
      have := length_escapeChar_pos c
      simp only [List.flatMap_cons, List.length_append]
      omega
  simpa using (runs s.toList []).loop

end Strings

end SpeechMarkup.Json
