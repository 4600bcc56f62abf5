import SpeechMarkup.Proofs.TextTree

/-! Scalars in texts. What a reader takes off a text as a string or as a number is one by the grammar, and whatever
comes behind it the reader takes the same. -/

namespace SpeechMarkup.Json

section Strings

variable {text rest : List Char}

/-- Characters that may stand before any others between quotes. -/
def InFront (piece : List Char) : Prop :=
  ∀ body, InString body → InString (piece ++ body)

theorem hexUnit_eq_ok {unit : Nat} (h : hexUnit text = .ok (unit, rest)) :
    ∃ a b c d, text = a :: b :: c :: d :: rest ∧ (∀ x ∈ [a, b, c, d], (hexDigit? x).isSome = true) ∧
      ∀ rest, hexUnit (a :: b :: c :: d :: rest) = .ok (unit, rest) := by
  unfold hexUnit at h
  extract_lets missing at h
  split at h
  · next a b c d later =>
    split at h
    · next ha hb hc hd =>
      cases h
      exact ⟨a, b, c, d, rfl, by simp [ha, hb, hc, hd], fun _ => by simp [hexUnit, ha, hb, hc, hd]⟩
    · cases h
  · cases h

theorem escapeMark_eq_ok {mark : Char} (h : escapeMark mark text = .ok rest) : text = mark :: rest := by
  unfold escapeMark at h
  split at h
  · cases h
  · split at h
    · next same =>
      cases h
      rw [same]
    · cases h

theorem unicodeEscape_eq_ok {c : Char} (h : unicodeEscape text = .ok (c, rest)) :
    ∃ piece, text = piece ++ rest ∧ (∀ rest, unicodeEscape (piece ++ rest) = .ok (c, rest)) ∧
      InFront ('\\' :: 'u' :: piece) := by
  obtain ⟨⟨unit, _⟩, first, read⟩ := bind_eq_ok_iff.1 h
  clear h
  obtain ⟨x, y, z, w, rfl, digits, again⟩ := hexUnit_eq_ok first
  dsimp only at read
  split at read
  · cases read
  next trailing =>
  split at read
  next leading =>
    obtain ⟨_, mark, marked⟩ := bind_eq_ok_iff.1 read
    obtain ⟨_, letter, lettered⟩ := bind_eq_ok_iff.1 marked
    obtain ⟨⟨second, _⟩, low, paired⟩ := bind_eq_ok_iff.1 lettered
    obtain rfl := escapeMark_eq_ok mark
    obtain rfl := escapeMark_eq_ok letter
    obtain ⟨x', y', z', w', rfl, digits', again'⟩ := hexUnit_eq_ok low
    dsimp only at paired
    split at paired
    · next pair =>
      obtain ⟨rfl, rfl⟩ := Prod.mk.inj (Except.ok.inj paired)
      refine ⟨x :: y :: z :: w :: '\\' :: 'u' :: x' :: y' :: z' :: w' :: [], rfl, fun rest => ?_, fun body inside => ?_⟩
      · simp [unicodeEscape, again, again', trailing, leading, escapeMark, pair, pure, Except.pure]
      · exact .unicode digits (.unicode digits' inside)
    · cases paired
  next plain =>
    cases read
    refine ⟨x :: y :: z :: w :: [], rfl, fun rest => ?_, fun body inside => .unicode digits inside⟩
    simp [unicodeEscape, again, trailing, plain, pure, Except.pure]

theorem stringChar_eq_ok_none (h : stringChar text = .ok (none, rest)) : text = '"' :: rest := by
  unfold stringChar at h
  split at h
  · cases h
  split at h
  · next quote =>
    cases h
    rw [quote]
  split at h
  · split at h
    · cases h
    split at h
    · obtain ⟨_, -, same⟩ := map_eq_ok_iff.1 h
      cases same
    split at h <;> cases h
  split at h <;> cases h

theorem stringChar_eq_ok_some {c : Char} (h : stringChar text = .ok (some c, rest)) :
    ∃ piece, text = piece ++ rest ∧ piece ≠ [] ∧ (∀ rest, stringChar (piece ++ rest) = .ok (some c, rest)) ∧
      InFront piece := by
  unfold stringChar at h
  split at h
  · cases h
  split at h
  · cases h
  next quote =>
  split at h
  next backslash =>
    subst backslash
    split at h
    · cases h
    next letter _ =>
    split at h
    next isUnicode =>
      obtain ⟨_, escape, same⟩ := map_eq_ok_iff.1 h
      cases same
      obtain ⟨piece, rfl, again, front⟩ := unicodeEscape_eq_ok escape
      refine ⟨'\\' :: 'u' :: piece, by rw [isUnicode]; rfl, List.cons_ne_nil _ _, fun rest => ?_, front⟩
      simp [stringChar, again, Except.map]
    next other =>
    split at h
    next known =>
      cases h
      refine ⟨['\\', letter], rfl, List.cons_ne_nil _ _, fun rest => ?_, fun body inside => .escape known inside⟩
      simp [stringChar, other, known]
    · cases h
  next backslash =>
  split at h
  · cases h
  next visible =>
  cases h
  exact ⟨[c], rfl, List.cons_ne_nil _ _, fun rest => by simp [stringChar, quote, backslash, visible],
    fun body inside => .plain quote backslash visible inside⟩

/-- What is read as a string is one, and is read as the same string whatever comes behind it. -/
theorem stringBody_eq_ok {s : String} (h : stringBody text = .ok (s, rest)) :
    ∃ body, InString body ∧ text = body ++ '"' :: rest ∧ ∀ rest, stringBody (body ++ '"' :: rest) = .ok (s, rest) := by
  unfold stringBody at h ⊢
  extract_lets round at h
  have start : ∃ body, InString body ∧ text = body ++ '"' :: rest ∧
      ∀ rest, Runs round [] (body ++ '"' :: rest) (.ok (s, rest)) := by
    refine loop_induct (P := fun before text => ∃ body, InString body ∧ text = body ++ '"' :: rest ∧
      ∀ rest, Runs round before (body ++ '"' :: rest) (.ok (s, rest))) h ?_ ?_
    · intro before text ended
      obtain ⟨⟨_ | c, behind⟩, char, ended⟩ := bind_eq_ok_iff.1 ended
      · cases ended
        exact ⟨[], .nil, stringChar_eq_ok_none char, fun _ => .done rfl⟩
      · cases ended
    · intro before text next mid goesOn later
      obtain ⟨⟨_ | c, behind⟩, char, goesOn⟩ := bind_eq_ok_iff.1 goesOn
      · cases goesOn
      · cases goesOn
        obtain ⟨piece, rfl, nonempty, again, front⟩ := stringChar_eq_ok_some char
        obtain ⟨body, inside, rfl, runs⟩ := later
        refine ⟨piece ++ body, front body inside, (List.append_assoc ..).symm, fun rest => ?_⟩
        rw [List.append_assoc]
        refine .again (by simp only [round, again, ok_bind]; rfl) ?_ (runs rest)
        have := List.length_pos_iff.2 nonempty
        simp only [List.length_append]
        omega
  obtain ⟨body, inside, split, runs⟩ := start
  exact ⟨body, inside, split, fun rest => (runs rest).loop⟩

theorem passChar_eq_ok {more : Bool} (h : passChar text = .ok (more, rest)) :
    ∃ piece, text = piece ++ rest ∧ if more then InFront piece else piece = ['"'] := by
  unfold passChar at h
  split at h
  · cases h
  next c _ =>
  split at h
  next quote =>
    cases h
    exact ⟨['"'], by rw [quote]; rfl, rfl⟩
  next quote =>
  split at h
  next backslash =>
    subst backslash
    split at h
    · cases h
    next letter _ =>
    split at h
    next isUnicode =>
      obtain ⟨_, unit, same⟩ := map_eq_ok_iff.1 h
      cases same
      obtain ⟨x, y, z, w, rfl, digits, -⟩ := hexUnit_eq_ok unit
      exact ⟨['\\', 'u', x, y, z, w], by rw [isUnicode]; rfl, fun body inside => .unicode digits inside⟩
    split at h
    next known =>
      cases h
      obtain ⟨_, known⟩ := Option.isSome_iff_exists.1 known
      exact ⟨['\\', letter], rfl, fun body inside => .escape known inside⟩
    · cases h
  next backslash =>
  split at h
  · cases h
  next visible =>
  cases h
  exact ⟨[c], rfl, fun body inside => .plain quote backslash visible inside⟩

theorem passString_eq_ok (h : passString text = .ok rest) : ∃ body, InString body ∧ text = body ++ '"' :: rest := by
  obtain ⟨⟨_, behind⟩, passed, same⟩ := bind_eq_ok_iff.1 h
  obtain rfl : behind = rest := Except.ok.inj same
  refine loop_induct (P := fun _ text => ∃ body, InString body ∧ text = body ++ '"' :: behind) passed ?_ ?_
  · intro _ text ended
    obtain ⟨⟨more, _⟩, char, ended⟩ := bind_eq_ok_iff.1 ended
    cases more with
    | true => cases ended
    | false =>
      cases ended
      obtain ⟨piece, rfl, rfl⟩ := passChar_eq_ok char
      exact ⟨[], .nil, rfl⟩
  · intro _ text _ mid goesOn later
    obtain ⟨⟨more, _⟩, char, goesOn⟩ := bind_eq_ok_iff.1 goesOn
    cases more with
    | false => cases goesOn
    | true =>
      cases goesOn
      obtain ⟨piece, rfl, front⟩ := passChar_eq_ok char
      obtain ⟨body, inside, rfl⟩ := later
      exact ⟨piece ++ body, front body inside, (List.append_assoc ..).symm⟩

theorem InString.passString {body : List Char} (inside : InString body) (rest : List Char) :
    passString (body ++ '"' :: rest) = .ok rest := by
  unfold Json.passString
  extract_lets round
  have runs : Runs round () (body ++ '"' :: rest) (.ok ((), rest)) := by
    induction inside with
    | nil => exact .done rfl
    | plain quote backslash visible _ ih =>
      exact .again (by simp [round, passChar, quote, backslash, visible, pure, Except.pure])
        (Nat.lt_succ_self _) ih
    | @escape letter _ _ known _ ih =>
      have other : letter ≠ 'u' := by
        rintro rfl
        cases known
      refine .again (by simp [round, passChar, other, known, pure, Except.pure]) ?_ ih
      simp only [List.cons_append, List.length_cons]
      omega
    | @unicode x y z w _ digits _ ih =>
      simp only [List.mem_cons, List.not_mem_nil, or_false, forall_eq_or_imp, forall_eq,
        Option.isSome_iff_exists] at digits
      obtain ⟨⟨_, hx⟩, ⟨_, hy⟩, ⟨_, hz⟩, ⟨_, hw⟩⟩ := digits
      refine .again (by simp [round, passChar, hexUnit, hx, hy, hz, hw, Except.map, pure, Except.pure]) ?_ ih
      simp only [List.cons_append, List.length_cons]
      omega
  rw [runs.loop]
  rfl

theorem InString.unique {body body' : List Char} {rest rest' : List Char} (inside : InString body)
    (inside' : InString body') (same : body ++ '"' :: rest = body' ++ '"' :: rest') : body = body' ∧ rest = rest' := by
  have passed := inside.passString rest
  rw [same, inside'.passString] at passed
  obtain rfl := Except.ok.inj passed
  exact ⟨List.append_cancel_right same, rfl⟩

theorem InString.of_plain {body : List Char} (plain : body.all fun c => c ≠ '"' && c ≠ '\\' && ¬c < ' ') :
    InString body := by
  induction body with
  | nil => exact .nil
  | cons c body ih =>
    simp only [List.all_cons, Bool.and_eq_true, decide_eq_true_eq] at plain
    obtain ⟨⟨⟨quote, backslash⟩, visible⟩, later⟩ := plain
    exact .plain quote backslash visible (ih later)

/-- The name is read as this string, whatever comes behind it. -/
def Name.Decodes (name : Name) (s : String) : Prop :=
  ∀ rest, stringBody (name.body ++ '"' :: rest) = .ok (s, rest)

theorem Name.value?_eq_some_iff {name : Name} {s : String} : name.value? = some s ↔ name.Decodes s := by
  unfold value?
  constructor
  · intro h
    split at h
    · next read =>
      cases h
      obtain ⟨body, inside, split, again⟩ := stringBody_eq_ok read
      obtain ⟨same, -⟩ := name.inString.unique inside split
      rw [Decodes, same]
      exact again
    · cases h
  · intro decodes
    rw [decodes []]

theorem Name.Decodes.unique {name : Name} {s s' : String} (decodes : name.Decodes s) (decodes' : name.Decodes s') :
    s = s' := by
  have read := decodes []
  rw [decodes' []] at read
  cases read
  rfl

theorem exists_name_of_stringBody {s : String} (h : stringBody text = .ok (s, rest)) :
    ∃ name : Name, text = name.body ++ '"' :: rest ∧ name.Decodes s := by
  obtain ⟨body, inside, split, again⟩ := stringBody_eq_ok h
  exact ⟨⟨body, inside⟩, split, again⟩

end Strings

section Numbers

variable {e : ReadError} {text rest : List Char}

def Stops (text : List Char) : Prop :=
  ∀ c ∈ text.head?, c.isDigit = false

theorem digits_eq_ok {ds : List Char} (h : NumberText.digits e text = .ok (ds, rest)) :
    Digits ds ∧ text = ds ++ rest := by
  unfold NumberText.digits at h
  split at h
  · cases h
  split at h
  next digit =>
    cases h
    refine ⟨⟨List.cons_ne_nil _ _, List.forall_mem_cons.2 ⟨digit, List.all_eq_true.1 List.all_takeWhile⟩⟩, ?_⟩
    rw [List.cons_append, List.takeWhile_append_dropWhile]
  · cases h

theorem digits_append {ds : List Char} (digits : Digits ds) (stops : Stops rest) :
    NumberText.digits e (ds ++ rest) = .ok (ds, rest) := by
  obtain ⟨nonempty, all⟩ := digits
  have ended : rest.takeWhile Char.isDigit = [] ∧ rest.dropWhile Char.isDigit = rest := by
    cases rest with
    | nil => exact ⟨rfl, rfl⟩
    | cons c rest => simp [stops c rfl]
  cases ds with
  | nil => exact absurd rfl nonempty
  | cons d ds =>
    obtain ⟨digit, later⟩ := List.forall_mem_cons.1 all
    simp [NumberText.digits, digit, List.takeWhile_append_of_pos later, List.dropWhile_append_of_pos later, ended]

theorem fractionDigits_eq_ok {fraction : Option (List Char)}
    (h : NumberText.fractionDigits e text = .ok (fraction, rest)) :
    ∃ token, FractionText fraction token ∧ text = token ++ rest := by
  unfold NumberText.fractionDigits at h
  split at h
  · obtain ⟨⟨ds, _⟩, read, same⟩ := map_eq_ok_iff.1 h
    cases same
    obtain ⟨digits, split⟩ := digits_eq_ok read
    exact ⟨_, .some digits, by rw [split]; rfl⟩
  · cases h
    exact ⟨[], .none, rfl⟩

theorem exponentDigits_eq_ok {exponent : Option (Bool × List Char)}
    (h : NumberText.exponentDigits e text = .ok (exponent, rest)) :
    ∃ token, ExponentText exponent token ∧ text = token ++ rest := by
  unfold NumberText.exponentDigits at h
  split at h
  · next letter behind =>
    split at h
    next exponential =>
      have letter : letter = 'e' ∨ letter = 'E' := by simpa using exponential
      obtain ⟨⟨ds, _⟩, read, same⟩ := bind_eq_ok_iff.1 h
      cases same
      obtain ⟨digits, split⟩ := digits_eq_ok read
      split at split <;> subst split
      · exact ⟨_, .minus letter digits, rfl⟩
      · exact ⟨_, .plus letter digits, rfl⟩
      · exact ⟨_, .bare letter digits, rfl⟩
    · cases h
      exact ⟨[], .none, rfl⟩
  · cases h
    exact ⟨[], .none, rfl⟩

theorem wholeDigits_eq_ok {ds : List Char} (h : NumberText.wholeDigits e text = .ok (ds, rest)) :
    (Digits ds ∧ (ds.head? = some '0' → ds = ['0'])) ∧ text = ds ++ rest := by
  obtain ⟨⟨ds, _⟩, read, checked⟩ := bind_eq_ok_iff.1 h
  obtain ⟨digits, split⟩ := digits_eq_ok read
  dsimp only at checked
  split at checked
  · cases checked
  next alone =>
    cases checked
    refine ⟨⟨digits, fun zero => ?_⟩, split⟩
    have single : ds.length = 1 := by simpa [zero] using alone
    obtain ⟨d, rfl⟩ := List.length_eq_one_iff.1 single
    cases zero
    rfl

theorem wholeDigits_append {ds : List Char} (digits : Digits ds) (zero : ds.head? = some '0' → ds = ['0'])
    (stops : Stops rest) : NumberText.wholeDigits e (ds ++ rest) = .ok (ds, rest) := by
  have alone : (ds.head? = some '0' && ds.length ≠ 1) = false := by
    by_cases front : ds.head? = some '0'
    · simp [zero front]
    · simp [front]
  rw [NumberText.wholeDigits, digits_append digits stops]
  simp only [ok_bind, alone]
  rfl

theorem scan_eq_ok {n : NumberText} (h : NumberText.scan e text = .ok (n, rest)) :
    ∃ token, n.Spells token ∧ text = token ++ rest := by
  unfold NumberText.scan at h
  obtain ⟨⟨whole, _⟩, read, h⟩ := bind_eq_ok_iff.1 h
  obtain ⟨⟨fraction, _⟩, fractional, h⟩ := bind_eq_ok_iff.1 h
  obtain ⟨⟨exponent, _⟩, exponential, h⟩ := bind_eq_ok_iff.1 h
  cases h
  obtain ⟨⟨digits, zero⟩, split⟩ := wholeDigits_eq_ok read
  obtain ⟨f, isFraction, rfl⟩ := fractionDigits_eq_ok fractional
  obtain ⟨x, isExponent, rfl⟩ := exponentDigits_eq_ok exponential
  refine ⟨_, .intro digits zero isFraction isExponent, ?_⟩
  split at split <;> subst split
  · simp
  · simp

theorem Follows.head {c : Char} (follows : Follows (c :: rest)) :
    c.isDigit = false ∧ c ≠ '.' ∧ c ≠ 'e' ∧ c ≠ 'E' := by
  have known := follows c rfl
  simp only [isSpace, Bool.or_eq_true, decide_eq_true_eq] at known
  rcases known with ((((rfl | rfl) | rfl) | rfl) | rfl | rfl | rfl) <;> decide

theorem Follows.stops (follows : Follows rest) : Stops rest := by
  intro c mem
  obtain ⟨later, rfl⟩ := List.head?_eq_some_iff.1 mem
  exact follows.head.1

theorem Digits.exists_cons {ds : List Char} (digits : Digits ds) : ∃ d later, ds = d :: later ∧ d.isDigit = true := by
  obtain ⟨nonempty, all⟩ := digits
  obtain ⟨d, later, rfl⟩ := List.exists_cons_of_ne_nil nonempty
  exact ⟨d, later, rfl, all d List.mem_cons_self⟩

theorem exponentDigits_append {exponent : Option (Bool × List Char)} {token : List Char}
    (isExponent : ExponentText exponent token) (follows : Follows rest) :
    NumberText.exponentDigits e (token ++ rest) = .ok (exponent, rest) := by
  cases isExponent with
  | none =>
    cases rest with
    | nil => rfl
    | cons c rest => simp [NumberText.exponentDigits, follows.head]
  | @bare letter ds isLetter digits =>
    have unsigned : ∀ later, ds ++ rest ≠ '-' :: later ∧ ds ++ rest ≠ '+' :: later := by
      obtain ⟨d, later, rfl, digit⟩ := digits.exists_cons
      intro _
      constructor <;> (intro same; cases same; exact absurd digit (by decide))
    simp only [NumberText.exponentDigits, List.cons_append, isLetter, Bool.or_eq_true, decide_eq_true_eq, if_true]
    split
    · next shape => exact absurd shape (unsigned _).1
    · next shape => exact absurd shape (unsigned _).2
    · rw [digits_append digits follows.stops]
      rfl
  | @plus letter ds isLetter digits =>
    simp [NumberText.exponentDigits, isLetter, digits_append digits follows.stops, pure, Except.pure]
  | @minus letter ds isLetter digits =>
    simp [NumberText.exponentDigits, isLetter, digits_append digits follows.stops, pure, Except.pure]

theorem ExponentText.stops {exponent : Option (Bool × List Char)} {token : List Char}
    (isExponent : ExponentText exponent token) (follows : Follows rest) :
    Stops (token ++ rest) ∧ (token ++ rest).head? ≠ some '.' := by
  have letter {x : Char} {later : List Char} (h : x = 'e' ∨ x = 'E') :
      Stops (x :: later) ∧ (x :: later).head? ≠ some '.' := by
    rcases h with rfl | rfl <;> simp [Stops]
  cases isExponent with
  | none =>
    refine ⟨follows.stops, fun point => ?_⟩
    obtain ⟨later, rfl⟩ := List.head?_eq_some_iff.1 point
    exact follows.head.2.1 rfl
  | bare isLetter | plus isLetter | minus isLetter => exact letter isLetter

theorem fractionDigits_append {fraction : Option (List Char)} {token later : List Char}
    (isFraction : FractionText fraction token) (stops : Stops later) (point : later.head? ≠ some '.') :
    NumberText.fractionDigits e (token ++ later) = .ok (fraction, later) := by
  cases isFraction with
  | none =>
    rw [List.nil_append, NumberText.fractionDigits.eq_2]
    rintro later rfl
    exact point rfl
  | some digits =>
    simp [NumberText.fractionDigits, digits_append digits stops, Except.map]

theorem FractionText.stops {fraction : Option (List Char)} {token later : List Char}
    (isFraction : FractionText fraction token) (stops : Stops later) : Stops (token ++ later) := by
  cases isFraction with
  | none => exact stops
  | some => simp [Stops]

theorem scan_append {n : NumberText} {token : List Char} (spells : n.Spells token) (follows : Follows rest) :
    NumberText.scan e (token ++ rest) = .ok (n, rest) := by
  obtain @⟨fraction, exponent, whole, zero, isFraction, isExponent⟩ := spells
  obtain ⟨stops, point⟩ := isExponent.stops follows
  have wholes := wholeDigits_append (e := e) whole zero (isFraction.stops stops)
  have fractions := fractionDigits_append (e := e) isFraction stops point
  have exponents := exponentDigits_append (e := e) isExponent follows
  obtain ⟨negative, ds, _, _⟩ := n
  dsimp only at wholes fractions exponents
  cases negative with
  | true =>
    simp only [if_true, List.cons_append, List.nil_append, List.append_assoc]
    simp only [NumberText.scan, wholes, fractions, exponents, ok_bind]
    rfl
  | false =>
    obtain ⟨d, later, rfl, digit⟩ := whole.exists_cons
    have unsigned : d ≠ '-' := by
      rintro rfl
      exact absurd digit (by decide)
    rw [List.cons_append] at wholes
    simp only [Bool.false_eq_true, if_false, List.nil_append, List.append_assoc, List.cons_append, NumberText.scan]
    split
    · next shape => exact absurd (List.cons.inj shape).1 unsigned
    · simp only [wholes, fractions, exponents, ok_bind]
      rfl

end Numbers

end SpeechMarkup.Json
