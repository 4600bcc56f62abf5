import SpeechMarkup.Proofs.BoundedNumber

/-! The exact numbers that pass a range. A range is checked on the double nearest to the number that is written, so each
of its ends stands where doubles begin to be nearer to it than to the double beyond: half a step further out, whether
the middle itself belongs to the range or not. Every number between the documented ends passes, and what passes beyond
them is less than a step away. -/

namespace SpeechMarkup

namespace Magnitude

/-- Two magnitudes next to each other, and the number in the middle between them. -/
structure Gap (lower upper : Magnitude) (middle : ℚ) : Prop where
  neighbours : upper.rank = lower.rank + 1
  sum : lower.value + upper.value = 2 * middle

variable {lower upper m : Magnitude} {middle q : ℚ}

theorem gap_of_units (parts count : Nat) (some : 0 < parts) (neighbours : upper.rank = lower.rank + 1)
    (low : lower.units * parts = count * unitsPerOne) (high : upper.units * parts = (count + 1) * unitsPerOne)
    (half : middle = (count + 1 / 2) / parts) : Gap lower upper middle where
  neighbours := neighbours
  sum := by
    rw [value_of_units_mul some low, value_of_units_mul some high, half, Nat.cast_add, Nat.cast_one]
    ring

namespace Gap

theorem lower_lt_upper (gap : Gap lower upper middle) : lower.value < upper.value := by
  rw [value_lt_iff, gap.neighbours]
  exact Nat.lt_succ_self _

theorem le_lower_or_upper_le (gap : Gap lower upper middle) (m : Magnitude) :
    m.value ≤ lower.value ∨ upper.value ≤ m.value := by
  rw [value_le_iff, value_le_iff, gap.neighbours]
  exact Nat.lt_or_ge _ _ |>.imp_left Nat.le_of_lt_succ

theorem even_of_middle (gap : Gap lower upper middle) (nearest : m.NearestTo middle)
    (neighbour : m = lower ∨ m = upper) : m.rank % 2 = 0 := by
  have order := gap.lower_lt_upper
  have sum := gap.sum
  have equal : |upper.value - middle| = |lower.value - middle| := by
    rw [abs_of_nonneg (by linarith), abs_of_nonpos (by linarith)]
    linarith
  rcases neighbour with rfl | rfl
  · exact nearest.even upper (fun same => order.ne (congrArg value same).symm) equal
  · exact nearest.even lower (fun same => order.ne (congrArg value same)) equal.symm

theorem le_lower_iff (gap : Gap lower upper middle) (even : lower.rank % 2 = 0) (nearest : m.NearestTo q) :
    m.value ≤ lower.value ↔ q ≤ middle := by
  have order := gap.lower_lt_upper
  have sum := gap.sum
  constructor
  · intro low
    have := (nearer_iff_of_lt (low.trans_lt order)).1 (nearest.nearest upper)
    linarith
  · intro below
    refine (gap.le_lower_or_upper_le m).resolve_right fun high => ?_
    have := (nearer_iff_of_gt (order.trans_le high)).1 (nearest.nearest lower)
    obtain rfl : m = upper := ext_value (by linarith)
    obtain rfl : q = middle := by linarith
    have := gap.even_of_middle nearest (.inr rfl)
    have := gap.neighbours
    omega

theorem upper_le_iff (gap : Gap lower upper middle) (even : upper.rank % 2 = 0) (nearest : m.NearestTo q) :
    upper.value ≤ m.value ↔ middle ≤ q := by
  have order := gap.lower_lt_upper
  have sum := gap.sum
  constructor
  · intro high
    have := (nearer_iff_of_gt (order.trans_le high)).1 (nearest.nearest lower)
    linarith
  · intro above
    refine (gap.le_lower_or_upper_le m).resolve_left fun low => ?_
    have := (nearer_iff_of_lt (low.trans_lt order)).1 (nearest.nearest upper)
    obtain rfl : m = lower := ext_value (by linarith)
    obtain rfl : q = middle := by linarith
    have := gap.even_of_middle nearest (.inl rfl)
    have := gap.neighbours
    omega

theorem le_lower_iff_lt (gap : Gap lower upper middle) (even : upper.rank % 2 = 0) (nearest : m.NearestTo q) :
    m.value ≤ lower.value ↔ q < middle := by
  have apart : m.value ≤ lower.value ↔ ¬ upper.value ≤ m.value := by
    rw [value_le_iff, value_le_iff, gap.neighbours]
    omega
  rw [apart, gap.upper_le_iff even nearest, not_le]

end Gap

end Magnitude

def Sign.apply (sign : Option Sign) (size : ℚ) : ℚ :=
  if sign = some .minus then -size else size

@[simp]
theorem Sign.apply_none (size : ℚ) : apply none size = size := if_neg (by decide)

@[simp]
theorem Sign.apply_plus (size : ℚ) : apply (some plus) size = size := if_neg (by decide)

@[simp]
theorem Sign.apply_minus (size : ℚ) : apply (some minus) size = -size := if_pos rfl

theorem Numeral.value_nonneg (n : Numeral) : 0 ≤ n.value := by
  rw [Numeral.value]
  positivity

theorem Sign.apply_between_iff {sign : Option Sign} {p q lo hi least greatest : ℚ} (nonneg : 0 ≤ p) (nonneg' : 0 ≤ q)
    (low : lo ≤ 0 ∧ least ≤ 0) (high : 0 ≤ hi ∧ 0 ≤ greatest) (below : p ≤ -lo ↔ q ≤ -least)
    (above : p ≤ hi ↔ q ≤ greatest) :
    lo ≤ apply sign p ∧ apply sign p ≤ hi ↔ apply sign q ∈ Set.Icc least greatest := by
  rw [Set.mem_Icc, apply, apply]
  split
  · rw [le_neg, below, le_neg]
    exact and_congr_right fun _ => iff_of_true (by linarith) (by linarith)
  · rw [above]
    exact and_congr_left fun _ => iff_of_true (by linarith) (by linarith)

namespace Measure

/-- At this place the texts of the measure stay as they are whose sign and number are of this kind, and all others are
replaced. -/
def Keeps (m : Measure) (place : Place) (kind : Option Sign → ℚ → Prop) : Prop :=
  ∀ (e : Element) (sign : Option Sign) (n : Numeral) (text : String), sign ∈ m.rule.signs → n.WellFormed →
    text.toList = Signed.text sign n m.unit.toList → e.attributes.get? m.attr = some text →
    ((m.tag.check place e).element.attributes.get? m.attr = some text ↔ kind sign n.value)

def Among (numbers : Set ℚ) (sign : Option Sign) (size : ℚ) : Prop :=
  Sign.apply sign size ∈ numbers

def RoundsInto (m : Measure) (sign : Option Sign) (size : ℚ) : Prop :=
  ∃ x : Binary64, x.NearestTo sign size ∧ x.Between m.lo m.hi

/-- These are the numbers that are rounded into the range of the measure, all those of the range among them. -/
structure Reaches (m : Measure) (numbers : Set ℚ) : Prop where
  rounds : ∀ sign ∈ m.rule.signs, ∀ n : Numeral, m.RoundsInto sign n.value ↔ Among numbers sign n.value
  contains : Set.Icc m.lo m.hi ⊆ numbers

variable {m : Measure} {place : Place} {numbers : Set ℚ} {sign : Option Sign}

theorem roundsInto_iff (n : Numeral) : m.RoundsInto sign n.value ↔ (Signed.number sign n).Between m.lo m.hi := by
  refine ⟨?_, fun inside => ⟨_, Signed.nearestTo_number sign n, inside⟩⟩
  rintro ⟨x, nearest, inside⟩
  rwa [← nearest.unique (Signed.nearestTo_number sign n)]

theorem keeps_roundsInto (mem : m ∈ all place.target.platform) : m.Keeps place m.RoundsInto := by
  intro e sign n text allowed wellFormed same found
  rw [roundsInto_iff]
  exact kept_iff_of_parse e mem found (Signed.parse_of_toList_eq allowed wellFormed same)

theorem Reaches.keeps (reaches : m.Reaches numbers) (mem : m ∈ all place.target.platform) :
    m.Keeps place (Among numbers) := by
  intro e sign n text allowed wellFormed same found
  rw [keeps_roundsInto mem e sign n text allowed wellFormed same found, reaches.rounds sign allowed n]

theorem exists_roundsInto_iff (m : Measure) (sign : Option Sign) (n : Numeral) :
    ∃ near : Magnitude, near.NearestTo n.value ∧
      (m.RoundsInto sign n.value ↔ m.lo ≤ Sign.apply sign near.value ∧ Sign.apply sign near.value ≤ m.hi) := by
  obtain ⟨near, nearest, same⟩ := Signed.nearestTo_number sign n
  refine ⟨near, nearest, ?_⟩
  rw [roundsInto_iff, same, Binary64.Between, Sign.apply]
  by_cases minus : sign = some .minus <;> simp [minus, Binary64.value?]

open Magnitude

theorem value_ofNat {n : Nat} (h : (ofNat n).units = n * unitsPerOne) : (ofNat n).value = n :=
  value_of_units h

theorem apply_of_mem (allowed : sign ∈ signsUpwards) (size : ℚ) : Sign.apply sign size = size := by
  simp only [signsUpwards, List.mem_cons, List.not_mem_nil, or_false] at allowed
  rcases allowed with rfl | rfl <;> simp

theorem speed_reaches : speed.Reaches (Set.Icc (50 - 1 / 2 ^ 48) (200 + 1 / 2 ^ 46)) where
  rounds sign allowed n := by
    obtain ⟨near, nearest, rounds⟩ := speed.exists_roundsInto_iff sign n
    have least : Gap ⟨(ofNat 50).rank - 1, by decide +kernel⟩ (ofNat 50) (50 - 1 / 2 ^ 48) :=
      gap_of_units (2 ^ 47) (50 * 2 ^ 47 - 1) (by norm_num) (by decide +kernel) (by decide +kernel) (by decide +kernel)
        (by norm_num)
    have greatest : Gap (ofNat 200) ⟨(ofNat 200).rank + 1, by decide +kernel⟩ (200 + 1 / 2 ^ 46) :=
      gap_of_units (2 ^ 45) (200 * 2 ^ 45) (by norm_num) rfl (by decide +kernel) (by decide +kernel) (by norm_num)
    have low := least.upper_le_iff (by decide +kernel) nearest
    have high := greatest.le_lower_iff (by decide +kernel) nearest
    rw [value_ofNat (by decide +kernel)] at low high
    rw [rounds, Among, apply_of_mem allowed, apply_of_mem allowed]
    exact and_congr low high
  contains := by
    refine Set.Icc_subset_Icc ?_ ?_ <;> norm_num [speed]

/-- The greatest rate is odd, so the middle above it is rounded to the even number that follows. -/
theorem rate_reaches : rate.Reaches (Set.Ico (20 - 1 / 2 ^ 49) (2 ^ 53 - 1 / 2)) where
  rounds sign allowed n := by
    obtain ⟨near, nearest, rounds⟩ := rate.exists_roundsInto_iff sign n
    have least : Gap ⟨(ofNat 20).rank - 1, by decide +kernel⟩ (ofNat 20) (20 - 1 / 2 ^ 49) :=
      gap_of_units (2 ^ 48) (20 * 2 ^ 48 - 1) (by norm_num) (by decide +kernel) (by decide +kernel) (by decide +kernel)
        (by norm_num)
    have greatest : Gap (ofNat 9007199254740991) (ofNat 9007199254740992) (2 ^ 53 - 1 / 2) :=
      gap_of_units 1 9007199254740991 one_pos (by decide +kernel) (by decide +kernel) (by decide +kernel) (by norm_num)
    have low := least.upper_le_iff (by decide +kernel) nearest
    have high := greatest.le_lower_iff_lt (by decide +kernel) nearest
    rw [value_ofNat (by decide +kernel)] at low high
    have last : rate.hi = ((9007199254740991 : Nat) : ℚ) := by norm_num [rate]
    have upwards : sign ∈ signsUpwards := (by decide : SignRule.forbidden.signs ⊆ signsUpwards) allowed
    rw [rounds, Among, apply_of_mem upwards, apply_of_mem upwards, last]
    exact and_congr low high
  contains q inside := by
    have last : rate.hi < 2 ^ 53 - 1 / 2 := by norm_num [rate]
    exact ⟨le_trans (by norm_num [rate]) inside.1, inside.2.trans_lt last⟩

theorem soundLevel_reaches : soundLevel.Reaches (Set.Icc (-40 - 1 / 2 ^ 48) (40 + 1 / 2 ^ 48)) where
  rounds sign _ n := by
    obtain ⟨near, nearest, rounds⟩ := soundLevel.exists_roundsInto_iff sign n
    have greatest : Gap (ofNat 40) ⟨(ofNat 40).rank + 1, by decide +kernel⟩ (40 + 1 / 2 ^ 48) :=
      gap_of_units (2 ^ 47) (40 * 2 ^ 47) (by norm_num) rfl (by decide +kernel) (by decide +kernel) (by norm_num)
    have high := greatest.le_lower_iff (by decide +kernel) nearest
    rw [value_ofNat (by decide +kernel)] at high
    have low : near.value ≤ - -40 ↔ n.value ≤ -(-40 - 1 / 2 ^ 48) := by
      rw [neg_neg, show -(-40 - 1 / 2 ^ 48) = (40 + 1 / 2 ^ 48 : ℚ) by norm_num]
      exact high
    rw [rounds]
    exact Sign.apply_between_iff near.value_nonneg n.value_nonneg (by norm_num [soundLevel])
      (by norm_num [soundLevel]) low high
  contains := by
    refine Set.Icc_subset_Icc ?_ ?_ <;> norm_num [soundLevel]

/-- The lower end of the pitch range is no double. What is rounded into the range lies above the middle between the two
doubles around it. -/
theorem pitch_reaches : pitch.Reaches (Set.Icc (-9373116724464845 / 2 ^ 48) (50 + 1 / 2 ^ 48)) where
  rounds sign _ n := by
    obtain ⟨near, nearest, rounds⟩ := pitch.exists_roundsInto_iff sign n
    have floor : Gap Grammar.pitchFloor ⟨Grammar.pitchFloor.rank + 1, by decide +kernel⟩ (9373116724464845 / 2 ^ 48) :=
      gap_of_units (2 ^ 47) 4686558362232422 (by norm_num) rfl (by decide +kernel) (by decide +kernel) (by norm_num)
    have greatest : Gap (ofNat 50) ⟨(ofNat 50).rank + 1, by decide +kernel⟩ (50 + 1 / 2 ^ 48) :=
      gap_of_units (2 ^ 47) (50 * 2 ^ 47) (by norm_num) rfl (by decide +kernel) (by decide +kernel) (by norm_num)
    have high := greatest.le_lower_iff (by decide +kernel) nearest
    rw [value_ofNat (by decide +kernel)] at high
    have low : near.value ≤ -(-333 / 10) ↔ n.value ≤ -(-9373116724464845 / 2 ^ 48) := by
      rw [neg_div, neg_neg, neg_div, neg_neg, ← Grammar.rank_le_pitchFloor, ← value_le_iff]
      exact floor.le_lower_iff (by decide +kernel) nearest
    rw [rounds]
    exact Sign.apply_between_iff near.value_nonneg n.value_nonneg (by norm_num [pitch]) (by norm_num [pitch]) low high
  contains := by
    refine Set.Icc_subset_Icc ?_ ?_ <;> norm_num [pitch]

/-- A quantity is kept where the double nearest to its number is in the documented range. So a number is kept up to half
a step beyond an end: the middle is kept too, but for the greatest rate, above which it is rounded away. Of the numbers
in the documented range none is replaced. -/
theorem keeps_reached (place : Place) :
    (place.target.platform = .google →
      speed.Keeps place (Among (Set.Icc (50 - 1 / 2 ^ 48) (200 + 1 / 2 ^ 46))) ∧
      soundLevel.Keeps place (Among (Set.Icc (-40 - 1 / 2 ^ 48) (40 + 1 / 2 ^ 48)))) ∧
    rate.Keeps place (Among (Set.Ico (20 - 1 / 2 ^ 49) (2 ^ 53 - 1 / 2))) ∧
    pitch.Keeps place (Among (Set.Icc (-9373116724464845 / 2 ^ 48) (50 + 1 / 2 ^ 48))) ∧
    ∀ m ∈ all place.target.platform, m.Keeps place m.RoundsInto ∧
      ∀ sign ∈ m.rule.signs, ∀ n : Numeral, Among (Set.Icc m.lo m.hi) sign n.value → m.RoundsInto sign n.value := by
  have everywhere : rate ∈ all place.target.platform ∧ pitch ∈ all place.target.platform := by
    unfold all
    split <;> simp
  refine ⟨fun google => ?_, rate_reaches.keeps everywhere.1, pitch_reaches.keeps everywhere.2, fun m mem => ?_⟩
  · have both : speed ∈ all place.target.platform ∧ soundLevel ∈ all place.target.platform := by simp [all, google]
    exact ⟨speed_reaches.keeps both.1, soundLevel_reaches.keeps both.2⟩
  · have reaches : ∃ numbers, m.Reaches numbers := by
      unfold all at mem
      split at mem <;> simp only [List.mem_cons, List.not_mem_nil, or_false] at mem
      · rcases mem with rfl | rfl | rfl | rfl
        · exact ⟨_, speed_reaches⟩
        · exact ⟨_, soundLevel_reaches⟩
        · exact ⟨_, rate_reaches⟩
        · exact ⟨_, pitch_reaches⟩
      · rcases mem with rfl | rfl
        · exact ⟨_, rate_reaches⟩
        · exact ⟨_, pitch_reaches⟩
    obtain ⟨numbers, reaches⟩ := reaches
    refine ⟨keeps_roundsInto mem, fun sign allowed n inside => ?_⟩
    exact (reaches.rounds sign allowed n).2 (reaches.contains inside)

/-- A speed a little above its range is kept, and a rate in the middle above the greatest one is not. -/
theorem keeps_reached_ends :
    let place : Place := ⟨{ platform := .google }, some "speak", 0⟩
    let fast : Element := { name := "audio", attributes := Dictionary.empty.insert "speed" "+200.00000000000001%" }
    let rapid : Element := { name := "prosody", attributes := Dictionary.empty.insert "rate" "9007199254740991.5%" }
    place.target.platform = .google ∧ rate ∈ all place.target.platform ∧
      (Tag.audio.check place fast).element.attributes.get? "speed" = some "+200.00000000000001%" ∧
      (Tag.prosody.check place rapid).element.attributes.get? "rate" ≠ some "9007199254740991.5%" ∧
      ¬ rate.RoundsInto none (9007199254740991 + 1 / 2) := by
  intro place fast rapid
  let near : Numeral := ⟨['2', '0', '0'], "00000000000001".toList⟩
  let middle : Numeral := ⟨"9007199254740991".toList, ['5']⟩
  have nearWell : near.WellFormed := ⟨by simp [near], by simp [near], by simp [near]⟩
  have middleWell : middle.WellFormed := ⟨by simp [middle], by simp [middle], by simp [middle]⟩
  have nearValue : near.value = 200 + 1 / 10 ^ 14 := by
    have digits : near.decimal.significand = 20000000000000001 := by decide +kernel
    have places : near.fraction.length = 14 := rfl
    rw [Numeral.value, digits, places]
    norm_num
  have middleValue : middle.value = 9007199254740991 + 1 / 2 := by
    have digits : middle.decimal.significand = 90071992547409915 := by decide +kernel
    have places : middle.fraction.length = 1 := rfl
    rw [Numeral.value, digits, places]
    norm_num
  obtain ⟨google, rates, -, rounds⟩ := keeps_reached place
  have mem : rate ∈ all place.target.platform := by simp [place, all]
  have kept := (google rfl).1 fast (some .plus) near "+200.00000000000001%" (by decide) nearWell rfl (by decide +kernel)
  have replaced := rates rapid none middle "9007199254740991.5%" (by decide) middleWell rfl (by decide +kernel)
  have rounded := (rounds rate mem).1 rapid none middle "9007199254740991.5%" (by decide) middleWell rfl
    (by decide +kernel)
  have inside : Among (Set.Icc (50 - 1 / 2 ^ 48) (200 + 1 / 2 ^ 46)) (some .plus) near.value := by
    rw [Among, Sign.apply_plus, nearValue, Set.mem_Icc]
    norm_num
  have outside : ¬ Among (Set.Ico (20 - 1 / 2 ^ 49) (2 ^ 53 - 1 / 2)) none middle.value := by
    rw [Among, Sign.apply_none, middleValue, Set.mem_Ico]
    norm_num
  rw [show speed.tag = .audio from rfl, show speed.attr = "speed" from rfl] at kept
  rw [show rate.tag = .prosody from rfl, show rate.attr = "rate" from rfl] at replaced rounded
  rw [← middleValue]
  exact ⟨rfl, mem, kept.2 inside, fun same => outside (replaced.1 same),
    fun reached => outside (replaced.1 (rounded.2 reached))⟩

/-- So the documented range is not decided on exact numbers: this speed is kept and lies above it. -/
theorem not_keeps_documented :
    let place : Place := ⟨{ platform := .google }, none, 0⟩
    let n : Numeral := ⟨['2', '0', '0'], "00000000000001".toList⟩
    let attributes := (Dictionary.empty.insert "src" "a").insert "speed" "200.00000000000001%"
    let e : Element := { name := "audio", attributes }
    n.WellFormed ∧ 200 < n.value ∧ "200.00000000000001%".toList = Signed.text none n "%".toList ∧
      (Tag.audio.check place e).element.attributes.get? "speed" = some "200.00000000000001%" ∧
      ¬ speed.Keeps place (Among (Set.Icc 50 200)) := by
  intro place n attributes e
  have wellFormed : n.WellFormed := ⟨by simp [n], by simp [n], by simp [n]⟩
  have above : 200 < n.value := by
    have digits : n.decimal.significand = 20000000000000001 := by decide +kernel
    have places : n.fraction.length = 14 := rfl
    rw [Numeral.value, digits, places]
    norm_num
  have kept : (Tag.audio.check place e).element.attributes.get? "speed" = some "200.00000000000001%" := by
    decide +kernel
  refine ⟨wellFormed, above, rfl, kept, fun exactly => ?_⟩
  have decided := exactly e none n "200.00000000000001%" (by decide) wellFormed rfl (by decide +kernel)
  rw [show speed.tag = .audio from rfl, show speed.attr = "speed" from rfl, Among, Sign.apply_none] at decided
  exact absurd (decided.1 kept).2 (not_le.2 above)

end Measure

end SpeechMarkup
