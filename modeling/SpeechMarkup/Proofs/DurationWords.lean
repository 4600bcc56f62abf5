import SpeechMarkup.Proofs.Duration

/-! The reader of durations as one law, and the same reading done in words of 64 bits. The law is in terms of the exact
number of milliseconds that a text spells. In words a count is too large at one of three steps: where its digits are
read, where seconds become milliseconds, and where the places behind the point are added. The steps only ever raise
the count, so one of them refuses exactly where the exact number is beyond 64 bits, and no unchecked step goes astray. -/

namespace SpeechMarkup

namespace Duration

/-- What comes of reading a text as a duration, by what it spells. -/
inductive Reads (platform : Platform) (ceiling : Option Nat) (text : String) : Except QuantityError Duration → Prop
  | infinite : text = "infinity" → ceiling = none → Reads platform ceiling text (.ok infinite)
  | infinityNotAllowed {most : Nat} : text = "infinity" → ceiling = some most →
    Reads platform ceiling text (.error .infinityNotAllowed)
  | finite {count : Nat} : Lasts platform text.toList count → count ≤ 2 ^ 64 - 1 → (∀ most ∈ ceiling, count ≤ most) →
    Reads platform ceiling text (.ok (millis count))
  | exceedsCeiling {count most : Nat} : Lasts platform text.toList count → count ≤ 2 ^ 64 - 1 → ceiling = some most →
    most < count → Reads platform ceiling text (.error (.exceedsCeiling count most))
  | malformed : text ≠ "infinity" → (∀ count, Lasts platform text.toList count → 2 ^ 64 - 1 < count) →
    Reads platform ceiling text (.error (.malformed text))

variable {platform : Platform} {ceiling : Option Nat} {text : String}

theorem ne_infinity_of_lasts {count : Nat} (h : Lasts platform text.toList count) : text ≠ "infinity" := by
  rintro rfl
  rw [← millis?_eq_some_iff, millis?_infinity] at h
  cases h

theorem reads_parse (platform : Platform) (ceiling : Option Nat) (text : String) :
    Reads platform ceiling text (parse text platform ceiling) := by
  unfold parse
  split
  · next named =>
    cases ceiling with
    | none => exact .infinite named rfl
    | some most => exact .infinityNotAllowed named rfl
  · next other =>
    cases spelled : millis? platform text.toList with
    | none =>
      refine .malformed other fun count lasts => ?_
      rw [← millis?_eq_some_iff, spelled] at lasts
      cases lasts
    | some count =>
      have lasts := millis?_eq_some_iff.1 spelled
      by_cases long : longest < count
      · have beyond : ∀ same, Lasts platform text.toList same → 2 ^ 64 - 1 < same := fun same h => by
          rw [← millis?_eq_some_iff, spelled] at h
          exact Option.some.inj h ▸ long
        simpa only [long, if_true] using Reads.malformed other beyond
      · have short : count ≤ 2 ^ 64 - 1 := Nat.not_lt.1 long
        simp only [long, if_false]
        cases ceiling with
        | none => exact .finite lasts short (by simp)
        | some most =>
          by_cases above : most < count
          · simpa only [above, if_true] using Reads.exceedsCeiling lasts short rfl above
          · simpa only [above, if_false] using Reads.finite lasts short (by simpa using above)

theorem parse_of_reads {result : Except QuantityError Duration} (h : Reads platform ceiling text result) :
    parse text platform ceiling = result := by
  cases h with
  | infinite named free => simp [parse, named, free]
  | infinityNotAllowed named bounded => simp [parse, named, bounded]
  | @finite count lasts short below =>
    have within : ¬ longest < count := Nat.not_lt.2 short
    simp only [parse, ne_infinity_of_lasts lasts, millis?_eq_some_iff.2 lasts, within, if_false]
    cases ceiling with
    | none => rfl
    | some most =>
      have notAbove : ¬ most < count := Nat.not_lt.2 (below most rfl)
      simp only [notAbove, if_false]
  | @exceedsCeiling count most lasts short bounded above =>
    have within : ¬ longest < count := Nat.not_lt.2 short
    simp only [parse, ne_infinity_of_lasts lasts, millis?_eq_some_iff.2 lasts, within, bounded, above, if_false,
      if_true]
  | malformed other beyond =>
    simp only [parse, other, if_false]
    cases spelled : millis? platform text.toList with
    | none => rfl
    | some count =>
      have long : longest < count := beyond count (millis?_eq_some_iff.1 spelled)
      simp only [long, if_true]

theorem parse_eq_iff {result : Except QuantityError Duration} :
    parse text platform ceiling = result ↔ Reads platform ceiling text result := by
  constructor
  · rintro rfl
    exact reads_parse platform ceiling text
  · exact parse_of_reads

end Duration

inductive WordFault where
  /-- The step looks at its result and refuses it. -/
  | refused
  /-- The result of a step that does not look leaves the words. -/
  | overflow
deriving DecidableEq

def word (fault : WordFault) (n : Nat) : Except WordFault UInt64 :=
  if n < UInt64.size then .ok (.ofNat n) else .error fault

theorem word_of_lt {fault : WordFault} {n : Nat} (h : n < UInt64.size) : word fault n = .ok (.ofNat n) :=
  if_pos h

theorem word_of_le {fault : WordFault} {n : Nat} (h : UInt64.size ≤ n) : word fault n = .error fault :=
  if_neg (Nat.not_lt.2 h)

theorem word_toNat (fault : WordFault) (a : UInt64) : word fault a.toNat = .ok a := by
  rw [word_of_lt a.toNat_lt, UInt64.ofNat_toNat]

namespace Duration.Words

def count (digits : List Char) : Except WordFault UInt64 :=
  word .refused (Decimal.ofDigits digits)

def digit (c : Char) : Except WordFault UInt64 :=
  if '0' ≤ c then word .overflow (c.toNat - '0'.toNat) else .error .overflow

/-- Adds digits to a count, of which the first counts `scale` times. -/
def addPlaces (count scale : UInt64) : List Char → Except WordFault UInt64
  | [] => .ok count
  | c :: rest => do
    let part ← word .overflow ((← digit c).toNat * scale.toNat)
    let sum ← word .refused (count.toNat + part.toNat)
    addPlaces sum (scale / 10) rest

def seconds (n : Numeral) : Except WordFault UInt64 := do
  let whole ← count n.whole
  let millis ← word .refused (whole.toNat * 1000)
  addPlaces millis 100 (n.fraction.take 3)

/-- A text that has no form of a duration is refused as a count beyond 64 bits is. -/
def millis (platform : Platform) (cs : List Char) : Except WordFault UInt64 :=
  let numeral (cs : List Char) := ((Numeral.read? cs).map seconds).getD (.error .refused)
  match ['m', 's'].isSuffixOf? cs, ['s'].isSuffixOf? cs with
  | some digits, _ => if isDigits digits then count digits else .error .refused
  | none, some cs => numeral cs
  | none, none => if platform = .google then numeral cs else .error .refused

/-- Reads a duration in words. There is no answer where an unchecked step leaves the words. -/
def parse? (text : String) (platform : Platform) (ceiling : Option UInt64) :
    Option (Except QuantityError Duration) :=
  if text = "infinity" then
    some (if ceiling.isNone then .ok infinite else .error .infinityNotAllowed)
  else match millis platform text.toList with
    | .error .overflow => none
    | .error .refused => some (.error (.malformed text))
    | .ok count => some (match ceiling with
      | none => .ok (.millis count.toNat)
      | some most =>
        if most < count then .error (.exceedsCeiling count.toNat most.toNat) else .ok (.millis count.toNat))

theorem digit_eq {c : Char} (h : c.isDigit = true) :
    ∃ d, digit c = .ok d ∧ d.toNat = c.toNat - '0'.toNat ∧ d.toNat ≤ 9 := by
  simp only [Char.isDigit, Bool.and_eq_true, decide_eq_true_eq, ge_iff_le, UInt32.le_iff_toNat_le] at h
  have least : '0' ≤ c := h.1
  have most : c.toNat ≤ 57 := h.2
  have zero : '0'.toNat = 48 := rfl
  have small : c.toNat - '0'.toNat < UInt64.size := by
    simp only [UInt64.size]
    omega
  refine ⟨.ofNat (c.toNat - '0'.toNat), ?_, UInt64.toNat_ofNat_of_lt' small, ?_⟩
  · rw [digit, if_pos least, word_of_lt small]
  · rw [UInt64.toNat_ofNat_of_lt' small]
    omega

/-- The places behind the point are added exactly, or the sum is refused. What the last of them counts is known by the
scale, which is a power of ten up to the point where no places are left. -/
theorem addPlaces_eq {digits : List Char} (h : ∀ c ∈ digits, c.isDigit = true) {places : Nat}
    (fits : digits.length ≤ places) (few : places ≤ 3) {count scale : UInt64} (scaled : scale.toNat = 10 ^ places / 10) :
    addPlaces count scale digits =
      word .refused (count.toNat + Decimal.ofDigits digits * 10 ^ (places - digits.length)) := by
  induction digits generalizing count scale places with
  | nil => rw [addPlaces, Decimal.ofDigits_nil, Nat.zero_mul, Nat.add_zero, word_toNat]
  | cons c rest ih =>
    obtain ⟨d, read, value, most⟩ := digit_eq (h c List.mem_cons_self)
    rw [List.length_cons] at fits
    obtain ⟨places, rfl⟩ : ∃ less, places = less + 1 := ⟨places - 1, by omega⟩
    have scale_eq : scale.toNat = 10 ^ places := by
      rw [scaled, pow_succ, Nat.mul_div_cancel _ (by decide)]
    have scaled' : (scale / 10).toNat = 10 ^ places / 10 := by
      rw [UInt64.toNat_div, scale_eq]
      rfl
    -- A digit counts at most nine hundred times, so its part needs no check.
    have part_lt : d.toNat * scale.toNat < UInt64.size := by
      have hundred : 10 ^ places ≤ 10 ^ 2 := Nat.pow_le_pow_right (by decide) (by omega)
      have := Nat.mul_le_mul most hundred
      simp only [scale_eq, UInt64.size]
      omega
    have split : Decimal.ofDigits (c :: rest) * 10 ^ (places + 1 - (rest.length + 1)) =
        d.toNat * scale.toNat + Decimal.ofDigits rest * 10 ^ (places - rest.length) := by
      have whole : 10 ^ rest.length * 10 ^ (places - rest.length) = 10 ^ places := by
        rw [← pow_add]
        congr 1
        omega
      rw [Decimal.ofDigits_cons, Nat.add_sub_add_right, Nat.add_mul, Nat.mul_assoc, whole, value, scale_eq]
    have part := UInt64.toNat_ofNat_of_lt' part_lt
    rw [List.length_cons, split]
    simp only [addPlaces, read, bind, Except.bind, word_of_lt part_lt, part]
    by_cases room : count.toNat + d.toNat * scale.toNat < UInt64.size
    · simp only [word_of_lt room]
      rw [ih (fun e mem => h e (List.mem_cons_of_mem _ mem)) (by omega) (by omega) scaled',
        UInt64.toNat_ofNat_of_lt' room, Nat.add_assoc]
    · rw [word_of_le (Nat.not_lt.1 room), word_of_le (by omega)]

theorem ofDigits_take_three (fraction : List Char) :
    Decimal.ofDigits ((fraction ++ ['0', '0', '0']).take 3) =
      Decimal.ofDigits (fraction.take 3) * 10 ^ (3 - (fraction.take 3).length) := by
  have zeros : ['0', '0', '0'] = List.replicate 3 '0' := rfl
  rw [List.take_append, zeros, List.take_replicate, Decimal.ofDigits_append, Decimal.ofDigits_replicate_zero,
    Nat.add_zero, List.length_replicate, List.length_take]
  congr 2
  omega

theorem seconds_eq {n : Numeral} (h : n.WellFormed) : seconds n = word .refused n.thousandfold := by
  have places : ∀ c ∈ n.fraction.take 3, c.isDigit = true := fun c mem => h.fraction c (List.mem_of_mem_take mem)
  have three : ((n.fraction ++ ['0', '0', '0']).take 3).length = 3 := by
    simp only [List.length_take, List.length_append, List.length_cons, List.length_nil]
    omega
  have exact : n.thousandfold = Decimal.ofDigits n.whole * 1000 +
      Decimal.ofDigits (n.fraction.take 3) * 10 ^ (3 - (n.fraction.take 3).length) := by
    rw [Numeral.thousandfold, Decimal.ofDigits_append, three, ofDigits_take_three]
    rfl
  rw [exact]
  simp only [seconds, count, bind, Except.bind]
  by_cases whole : Decimal.ofDigits n.whole < UInt64.size
  · simp only [word_of_lt whole, UInt64.toNat_ofNat_of_lt' whole]
    by_cases thousands : Decimal.ofDigits n.whole * 1000 < UInt64.size
    · simp only [word_of_lt thousands]
      rw [addPlaces_eq places (List.length_take_le ..) (Nat.le_refl 3) rfl, UInt64.toNat_ofNat_of_lt' thousands]
    · rw [word_of_le (Nat.not_lt.1 thousands), word_of_le (by omega)]
  · rw [word_of_le (Nat.not_lt.1 whole), word_of_le (by omega)]

theorem millis_eq (platform : Platform) (cs : List Char) :
    millis platform cs = ((millis? platform cs).map (word .refused)).getD (.error .refused) := by
  have numeral (cs : List Char) : ((Numeral.read? cs).map seconds).getD (.error .refused) =
      (((Numeral.read? cs).map Numeral.thousandfold).map (word .refused)).getD (.error .refused) := by
    cases read : Numeral.read? cs with
    | none => rfl
    | some n => exact seconds_eq (Numeral.read?_eq_some_iff.1 read).1
  simp only [millis, millis?]
  cases ['m', 's'].isSuffixOf? cs with
  | some digits =>
    by_cases all : isDigits digits = true
    · simp only [all, if_true]
      rfl
    · simp only [all]
      rfl
  | none =>
    cases ['s'].isSuffixOf? cs with
    | some front => exact numeral front
    | none =>
      by_cases google : platform = .google
      · simp only [google, if_true]
        exact numeral cs
      · simp only [google, if_false]
        rfl

theorem parse?_eq (text : String) (platform : Platform) (ceiling : Option UInt64) :
    parse? text platform ceiling = some (parse text platform (ceiling.map UInt64.toNat)) := by
  unfold parse? parse
  split
  · cases ceiling <;> rfl
  · rw [millis_eq]
    cases spelled : Duration.millis? platform text.toList with
    | none => rfl
    | some count =>
      by_cases room : count < UInt64.size
      · have within : ¬ longest < count := by
          simp only [longest]
          omega
        simp only [Option.map_some, Option.getD_some, word_of_lt room, within, if_false, UInt64.toNat_ofNat_of_lt' room]
        cases ceiling with
        | none => rfl
        | some most => simp only [Option.map_some, UInt64.lt_iff_toNat_lt, UInt64.toNat_ofNat_of_lt' room]
      · have long : longest < count := by
          simp only [longest, UInt64.size] at room ⊢
          omega
        simp only [Option.map_some, Option.getD_some, word_of_le (Nat.not_lt.1 room), long, if_true]

end Duration.Words

/-- The reader of durations gives what the text spells by the exact number of milliseconds, and under a ceiling that is
a word the same comes of reading in words, where no step goes astray. -/
theorem Duration.parse_exact (text : String) (platform : Platform) :
    (∀ ceiling result, parse text platform ceiling = result ↔ Reads platform ceiling text result) ∧
    ∀ ceiling : Option UInt64,
      Words.parse? text platform ceiling = some (parse text platform (ceiling.map UInt64.toNat)) :=
  ⟨fun _ _ => parse_eq_iff, Words.parse?_eq text platform⟩

end SpeechMarkup
