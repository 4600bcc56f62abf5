import SpeechMarkup.Number.Decimal

/-! The shortest decimal that reads back as a given magnitude, and the text of numbers in markup.
Grids of decimals are tried from coarse to fine. On each grid only the two neighbours of the magnitude can be
nearest to it, and the first grid on which one of them reads back gives the answer; of two that read back the
nearer is taken. The text of a number has these digits place by place, with no point after a whole number, no
exponent and no minus before zero. -/

namespace SpeechMarkup.Magnitude

inductive Tie where
  | up
  | toEven
deriving DecidableEq

/-- The least `k` with `m < 10 ^ k`, for a finite `m` that is not zero. -/
def leadingPlace (m : Magnitude) : Int :=
  (Decimal.digits (m.units * Decimal.tenTo 400 / unitsPerOne)).length - 400

def inSteps (m : Magnitude) (exponent : Int) : Nat × Nat :=
  match exponent with
  | .ofNat places => (m.units, unitsPerOne * Decimal.tenTo places)
  | .negSucc places => (m.units * Decimal.tenTo (places + 1), unitsPerOne)

/-- The neighbour of the magnitude on the grid of step `10 ^ exponent` that reads back as the magnitude, if
there is one. -/
def onGrid? (m : Magnitude) (tie : Tie) (exponent : Int) : Option Decimal :=
  let (n, d) := m.inSteps exponent
  let below : Decimal := ⟨n / d, exponent⟩
  let above : Decimal := ⟨n / d + 1, exponent⟩
  let twiceRest := 2 * (n % d)
  let nearerBelow := twiceRest < d || (twiceRest = d && tie = .toEven && n / d % 2 = 0)
  let candidates := if nearerBelow then [below, above] else [above, below]
  candidates.find? fun x => x.toMagnitude = m

/-- The exact value of a finite magnitude: a power of two below one is a decimal with as many places. -/
def exactDecimal (m : Magnitude) : Decimal :=
  ⟨m.units * Nat.pow 5 depth, -depth⟩

theorem toMagnitude_exactDecimal {m : Magnitude} (h : m ≠ .zero) : m.exactDecimal.toMagnitude = m := by
  have least : Nat.pow 5 depth ≤ m.units * Nat.pow 5 depth := Nat.le_mul_of_pos_left _ (units_pos h)
  have positive : m.units * Nat.pow 5 depth ≠ 0 :=
    Nat.ne_of_gt (Nat.lt_of_lt_of_le (by decide +kernel) least)
  have near : ¬400 + (m.units * Nat.pow 5 depth).log2 < depth - 1 := by
    have : depth ≤ (m.units * Nat.pow 5 depth).log2 :=
      (Nat.le_log2 positive).2 (Nat.le_trans (by decide +kernel) least)
    omega
  have places : -(depth : Int) = .negSucc (depth - 1) := rfl
  have tens : m.units * Nat.pow 5 depth * unitsPerOne = m.units * Decimal.tenTo depth := by
    rw [Nat.mul_assoc]
    exact congrArg (m.units * ·) (by decide +kernel)
  rw [exactDecimal, Decimal.toMagnitude, if_neg positive]
  simp only [places, if_neg near, tens, Nat.sub_add_cancel (show 1 ≤ depth by decide)]
  exact nearest_units m (Decimal.tenTo_pos depth)

/-- The shortest decimal that reads back, for a finite magnitude that is not zero. Seventeen digits always
suffice; the exact value stands behind them. -/
def shortest (m : Magnitude) (tie : Tie) : Decimal :=
  let place := m.leadingPlace
  ((List.range 18).findSome? fun (count : Nat) => m.onGrid? tie (place - count)).getD m.exactDecimal

theorem toMagnitude_of_onGrid? {m : Magnitude} {tie : Tie} {exponent : Int} {x : Decimal}
    (h : m.onGrid? tie exponent = some x) : x.toMagnitude = m := by
  simpa using List.find?_some h

theorem toMagnitude_shortest {m : Magnitude} (tie : Tie) (h : m ≠ .zero) : (m.shortest tie).toMagnitude = m := by
  rw [shortest]
  cases found : (List.range 18).findSome? fun (count : Nat) => m.onGrid? tie (m.leadingPlace - count) with
  | none => exact toMagnitude_exactDecimal h
  | some x =>
    obtain ⟨count, -, h⟩ := List.exists_of_findSome?_eq_some found
    exact toMagnitude_of_onGrid? h

end SpeechMarkup.Magnitude

namespace SpeechMarkup.Binary64

def magnitudeText (m : Magnitude) : List Char :=
  if m = .zero then ['0']
  else if m = .infinity then ['i', 'n', 'f']
  else (m.shortest .up).positional

def text (x : Binary64) : String :=
  match x with
  | .nan => "NaN"
  | .signed negative m =>
    String.ofList (if negative && m ≠ .zero then '-' :: magnitudeText m else magnitudeText m)

def signedText (x : Binary64) (unit : String) : String :=
  if x.lt zero then x.text ++ unit else "+" ++ x.text ++ unit

end SpeechMarkup.Binary64
