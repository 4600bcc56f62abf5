import SpeechMarkup.Proofs.ByteOrder
import SpeechMarkup.Proofs.Rounding

/-! The number at the front of a text, found by places among the bytes of the text. The scan moves over bytes that stand
for signs, digits, a point and the mark of an exponent, so every place that it comes to is the beginning of a character.
What it cuts off is therefore a text, and one that a reader of doubles takes: the longest number at the front. -/

namespace SpeechMarkup

namespace Binary64

def places : List Char → List Char × List Char
  | '.' :: rest => (rest.takeWhile Char.isDigit, rest.dropWhile Char.isDigit)
  | rest => ([], rest)

/-- Reads a text as a double, all of it: behind a sign perhaps a name in letters of either case, or else digits with a
point before, among or behind them and an exponent perhaps. -/
def read? (cs : List Char) : Option Binary64 :=
  let (sign, body) := Sign.read cs
  let name := body.map Char.toLower
  if name = ['n', 'a', 'n'] then some nan
  else if name = ['i', 'n', 'f'] ∨ name = ['i', 'n', 'f', 'i', 'n', 'i', 't', 'y'] then
    some (.signed (sign = some .minus) .infinity)
  else
    let whole := body.takeWhile Char.isDigit
    let (fraction, behind) := places (body.dropWhile Char.isDigit)
    let exponent := WrittenExponent.read? behind
    if (whole = [] ∧ fraction = []) ∨ FrontNumber.exponentText exponent ≠ behind then none
    else some (FrontNumber.number ⟨sign, whole, fraction, exponent⟩)

end Binary64

inductive CutFault where
  /-- The cut would go through a character. -/
  | insideCharacter
  /-- What is cut off is not read as a double. -/
  | unreadable
deriving DecidableEq

namespace Leading.Bytes

def isDigit (byte : UInt8) : Bool :=
  '0'.toUInt8 ≤ byte && byte ≤ '9'.toUInt8

def digitsEnd (bytes : List UInt8) (place : Nat) : Nat :=
  if h : place < bytes.length then
    if isDigit bytes[place] then digitsEnd bytes (place + 1) else place
  else place
termination_by bytes.length - place

def signEnd (bytes : List UInt8) (place : Nat) : Nat :=
  if bytes[place]? = some '+'.toUInt8 ∨ bytes[place]? = some '-'.toUInt8 then place + 1 else place

/-- The place behind a point with digits. A point without digits is left where it stands. -/
def fractionEnd (bytes : List UInt8) (place : Nat) : Nat :=
  if bytes[place]? = some '.'.toUInt8 then
    let behind := digitsEnd bytes (place + 1)
    if 0 < behind - place - 1 then behind else place
  else place

def exponentEnd (bytes : List UInt8) (place : Nat) : Nat :=
  if bytes[place]? = some 'e'.toUInt8 ∨ bytes[place]? = some 'E'.toUInt8 then
    let digits := signEnd bytes (place + 1)
    let behind := digitsEnd bytes digits
    if digits < behind then behind else place
  else place

/-- The place behind the number that the bytes begin with, if a digit is there before or behind a point. -/
def numberEnd? (bytes : List UInt8) : Option Nat :=
  let whole := signEnd bytes 0
  let fraction := digitsEnd bytes whole
  let exponent := fractionEnd bytes fraction
  if fraction - whole + (exponent - fraction - 1) = 0 then none else some (exponentEnd bytes exponent)

def cut? : List Char → Nat → Option (List Char)
  | _, 0 => some []
  | [], _ + 1 => none
  | c :: cs, size + 1 => if c.utf8Size ≤ size + 1 then (cut? cs (size + 1 - c.utf8Size)).map (c :: ·) else none

/-- The number that a text begins with behind its blanks, cut off at a place among the bytes and then read. -/
def number (text : String) : Except CutFault (Option Binary64) :=
  let front := text.toList.dropWhile Text.isBlank
  match numberEnd? (Text.utf8 (String.ofList front)) with
  | none => .ok none
  | some size =>
    match cut? front size with
    | none => .error .insideCharacter
    | some number =>
      match Binary64.read? number with
      | none => .error .unreadable
      | some x => .ok (some x)

/-- The characters from here on begin at this place. -/
def At (bytes : List UInt8) (place : Nat) (rest : List Char) : Prop :=
  bytes.drop place = rest.flatMap String.utf8EncodeChar

theorem exists_first_byte (c : Char) :
    ∃ byte more, String.utf8EncodeChar c = byte :: more ∧
      (c.toNat ≤ 127 ∧ byte.toNat = c.toNat ∧ more = [] ∨ 127 < c.toNat ∧ 127 < byte.toNat) := by
  have code : c.toNat = c.val.toNat := rfl
  unfold String.utf8EncodeChar
  dsimp only
  split_ifs with one two three
  · exact ⟨_, _, rfl, .inl ⟨one, Text.toNat_byte (by omega), rfl⟩⟩
  all_goals
    refine ⟨_, _, rfl, .inr ⟨by omega, ?_⟩⟩
    rw [Text.toNat_byte (by omega)]
    omega

variable {bytes : List UInt8} {place : Nat} {rest : List Char}

theorem At.none_of_nil (h : At bytes place []) : bytes[place]? = none := by
  rw [← List.head?_drop, h]
  rfl

theorem At.exists_byte {c : Char} (h : At bytes place (c :: rest)) :
    ∃ byte, bytes[place]? = some byte ∧
      (c.toNat ≤ 127 ∧ byte.toNat = c.toNat ∧ At bytes (place + 1) rest ∨ 127 < c.toNat ∧ 127 < byte.toNat) := by
  obtain ⟨byte, more, encoded, cases⟩ := exists_first_byte c
  rw [At, List.flatMap_cons, encoded, List.cons_append] at h
  refine ⟨byte, ?_, cases.imp_left fun ⟨small, code, single⟩ => ⟨small, code, ?_⟩⟩
  · rw [← List.head?_drop, h]
    rfl
  · rw [At, ← List.tail_drop, h, single]
    rfl

theorem toNat_toUInt8 {c : Char} (small : c.toNat ≤ 127) : c.toUInt8.toNat = c.toNat := by
  have code : c.val.toNat ≤ 127 := small
  exact Text.toNat_byte (by omega)

theorem At.eq_some_iff (h : At bytes place rest) {c : Char} (small : c.toNat ≤ 127) :
    bytes[place]? = some c.toUInt8 ↔ rest.head? = some c := by
  have code := toNat_toUInt8 small
  cases rest with
  | nil => simp [h.none_of_nil]
  | cons d rest =>
    obtain ⟨byte, found, cases⟩ := h.exists_byte
    rw [found, Option.some.injEq, List.head?_cons, Option.some.injEq, ← UInt8.toNat_inj, code, ← Char.toNat_inj]
    rcases cases with ⟨_, same, -⟩ | ⟨_, _⟩ <;> omega

theorem At.step {c : Char} (h : At bytes place (c :: rest)) (small : c.toNat ≤ 127) : At bytes (place + 1) rest := by
  obtain ⟨byte, -, ⟨-, -, next⟩ | ⟨large, -⟩⟩ := h.exists_byte
  · exact next
  · omega

theorem toNat_of_isDigit {c : Char} : c.isDigit = true ↔ 48 ≤ c.toNat ∧ c.toNat ≤ 57 := by
  simp only [Char.isDigit, Bool.and_eq_true, decide_eq_true_eq, ge_iff_le, UInt32.le_iff_toNat_le]
  exact Iff.rfl

theorem isDigit_byte_iff {byte : UInt8} : isDigit byte = true ↔ 48 ≤ byte.toNat ∧ byte.toNat ≤ 57 := by
  simp only [isDigit, Bool.and_eq_true, decide_eq_true_eq, UInt8.le_iff_toNat_le]
  exact Iff.rfl

theorem digitsEnd_of_at (h : At bytes place rest) :
    digitsEnd bytes place = place + (rest.takeWhile Char.isDigit).length ∧
      At bytes (digitsEnd bytes place) (rest.dropWhile Char.isDigit) := by
  induction rest generalizing place with
  | nil =>
    have ends : ¬ place < bytes.length := by
      rw [Nat.not_lt, ← List.getElem?_eq_none_iff]
      exact h.none_of_nil
    rw [digitsEnd, dif_neg ends]
    exact ⟨rfl, h⟩
  | cons c rest ih =>
    obtain ⟨byte, found, cases⟩ := h.exists_byte
    obtain ⟨inside, same⟩ := List.getElem?_eq_some_iff.1 found
    have digit : isDigit byte = true ↔ c.isDigit = true := by
      rw [isDigit_byte_iff, toNat_of_isDigit]
      rcases cases with ⟨_, code, -⟩ | ⟨_, _⟩ <;> omega
    rw [digitsEnd, dif_pos inside, same]
    by_cases shown : c.isDigit = true
    · -- A digit takes one byte, so the next place begins a character as well.
      have small : c.toNat ≤ 127 := (toNat_of_isDigit.1 shown).2.trans (by decide)
      obtain ⟨stop, next⟩ := ih (h.step small)
      rw [if_pos (digit.2 shown), List.takeWhile_cons_of_pos shown, List.dropWhile_cons_of_pos shown]
      exact ⟨stop.trans (by rw [List.length_cons]; omega), next⟩
    · rw [if_neg (digit.not.2 shown), List.takeWhile_cons_of_neg shown, List.dropWhile_cons_of_neg shown]
      exact ⟨rfl, h⟩

theorem signEnd_of_at (h : At bytes place rest) :
    signEnd bytes place = place + (Sign.text (Sign.read rest).1).length ∧
      At bytes (signEnd bytes place) (Sign.read rest).2 := by
  have plus := h.eq_some_iff (c := '+') (by decide)
  have minus := h.eq_some_iff (c := '-') (by decide)
  unfold Sign.read
  split
  · rw [signEnd, if_pos (.inl (plus.2 rfl))]
    exact ⟨rfl, h.step (by decide)⟩
  · rw [signEnd, if_pos (.inr (minus.2 rfl))]
    exact ⟨rfl, h.step (by decide)⟩
  · next notPlus notMinus =>
    have none : ¬ (bytes[place]? = some '+'.toUInt8 ∨ bytes[place]? = some '-'.toUInt8) := by
      rw [plus, minus, List.head?_eq_some_iff, List.head?_eq_some_iff]
      rintro (⟨more, rfl⟩ | ⟨more, rfl⟩)
      · exact notPlus more rfl
      · exact notMinus more rfl
    rw [signEnd, if_neg none]
    exact ⟨rfl, h⟩

theorem fractionEnd_of_at (h : At bytes place rest) :
    fractionEnd bytes place = place + (FrontNumber.fractionText (Leading.fraction rest).1).length ∧
      At bytes (fractionEnd bytes place) (Leading.fraction rest).2 := by
  have point := h.eq_some_iff (c := '.') (by decide)
  unfold Leading.fraction
  split
  · next behind =>
    obtain ⟨stop, next⟩ := digitsEnd_of_at (h.step (by decide))
    simp only [fractionEnd, if_pos (point.2 rfl)]
    cases digits : behind.takeWhile Char.isDigit with
    | nil =>
      -- The scan goes back to the point, where it began.
      rw [digits, List.length_nil] at stop
      rw [if_neg (by omega)]
      exact ⟨rfl, h⟩
    | cons d places =>
      rw [digits, List.length_cons] at stop
      rw [if_pos (by omega)]
      refine ⟨?_, next⟩
      simp only [List.isEmpty_cons, Bool.false_eq_true, if_false, FrontNumber.fractionText, List.length_cons]
      omega
  · next notPoint =>
    have none : ¬ bytes[place]? = some '.'.toUInt8 := by
      rw [point, List.head?_eq_some_iff]
      rintro ⟨more, rfl⟩
      exact notPoint more rfl
    rw [fractionEnd, if_neg none]
    exact ⟨rfl, h⟩

theorem exponentEnd_of_at (h : At bytes place rest) :
    exponentEnd bytes place = place + (FrontNumber.exponentText (WrittenExponent.read? rest)).length := by
  have small := h.eq_some_iff (c := 'e') (by decide)
  have large := h.eq_some_iff (c := 'E') (by decide)
  cases rest with
  | nil =>
    rw [exponentEnd, if_neg (by simp [small, large])]
    rfl
  | cons c behind =>
    by_cases mark : c = 'e' ∨ c = 'E'
    · have ascii : c.toNat ≤ 127 := by rcases mark with rfl | rfl <;> decide
      obtain ⟨signed, digits⟩ := signEnd_of_at (h.step ascii)
      obtain ⟨stop, -⟩ := digitsEnd_of_at digits
      have marked : bytes[place]? = some 'e'.toUInt8 ∨ bytes[place]? = some 'E'.toUInt8 := by
        rw [small, large]
        simpa using mark
      simp only [exponentEnd, if_pos marked, WrittenExponent.read?, mark, true_and]
      by_cases none : (Sign.read behind).2.takeWhile Char.isDigit = []
      · rw [none, List.length_nil] at stop
        rw [if_neg (by omega), if_neg (by simpa using none)]
        rfl
      · have some := List.length_pos_of_ne_nil none
        rw [if_pos (by omega), if_pos none]
        simp only [FrontNumber.exponentText, Option.map_some, Option.getD_some, WrittenExponent.text, List.length_cons,
          List.length_append]
        omega
    · have unmarked : ¬ (bytes[place]? = some 'e'.toUInt8 ∨ bytes[place]? = some 'E'.toUInt8) := by
        rw [small, large]
        simpa using mark
      simp only [exponentEnd, if_neg unmarked, WrittenExponent.read?, mark, false_and, if_false]
      rfl

theorem length_fractionText_sub_one (digits : List Char) :
    (FrontNumber.fractionText digits).length - 1 = digits.length := by
  cases digits <;> rfl

theorem numberEnd?_eq (cs : List Char) :
    numberEnd? (cs.flatMap String.utf8EncodeChar) =
      let n := FrontNumber.scan cs
      if n.whole = [] ∧ n.fraction = [] then none else some n.text.length := by
  have start : At (cs.flatMap String.utf8EncodeChar) 0 cs := rfl
  obtain ⟨signed, whole⟩ := signEnd_of_at start
  obtain ⟨wholeStop, point⟩ := digitsEnd_of_at whole
  obtain ⟨fractionStop, mark⟩ := fractionEnd_of_at point
  have stop := exponentEnd_of_at mark
  -- Digits are counted by places, so the point has to be taken away from those behind it.
  have places := length_fractionText_sub_one (Leading.fraction ((Sign.read cs).2.dropWhile Char.isDigit)).1
  simp only [numberEnd?, FrontNumber.scan, FrontNumber.text, List.length_append]
  refine if_congr ?_ rfl (congrArg some ?_)
  · rw [← List.length_eq_zero_iff, ← List.length_eq_zero_iff]
    omega
  · omega

end Leading.Bytes

theorem cut?_append {front : List Char} (h : ∀ c ∈ front, c.utf8Size = 1) (rest : List Char) :
    Leading.Bytes.cut? (front ++ rest) front.length = some front := by
  induction front with
  | nil => simp [Leading.Bytes.cut?]
  | cons c front ih =>
    have tail := ih fun d mem => h d (List.mem_cons_of_mem _ mem)
    rw [List.cons_append, List.length_cons, Leading.Bytes.cut?, h c List.mem_cons_self, if_pos (by omega),
      Nat.add_sub_cancel, tail]
    rfl

namespace FrontNumber

variable {n : FrontNumber}

theorem mem_text (h : n.WellFormed) {c : Char} (mem : c ∈ n.text) :
    c.isDigit = true ∨ c ∈ ['+', '-', '.', 'e', 'E'] := by
  have inSign (sign : Option Sign) (mem : c ∈ Sign.text sign) : c ∈ ['+', '-', '.', 'e', 'E'] := by
    rcases sign with _ | _ | _ <;> simp_all [Sign.text]
  simp only [text, List.mem_append] at mem
  rcases mem with mem | mem | mem | mem
  · exact .inr (inSign _ mem)
  · exact .inl (h.whole c mem)
  · cases digits : n.fraction with
    | nil => simp [digits, fractionText] at mem
    | cons d places =>
      rw [digits, fractionText, List.mem_cons, ← digits] at mem
      exact mem.symm.imp (h.fraction c) (by rintro rfl; simp)
  · cases shown : n.exponent with
    | none => simp [shown, exponentText] at mem
    | some x =>
      have wellFormed := h.exponent x shown
      simp only [shown, exponentText, Option.map_some, Option.getD_some, WrittenExponent.text, List.mem_cons,
        List.mem_append] at mem
      rcases mem with rfl | mem | mem
      · rcases wellFormed.mark with mark | mark <;> simp [mark]
      · exact .inr (inSign _ mem)
      · exact .inl (wellFormed.digits c mem)

theorem utf8Size_of_mem_text (h : n.WellFormed) {c : Char} (mem : c ∈ n.text) : c.utf8Size = 1 := by
  have small : c.toNat ≤ 127 := by
    rcases n.mem_text h mem with digit | mark
    · exact (Leading.Bytes.toNat_of_isDigit.1 digit).2.trans (by decide)
    · have marks : ∀ d ∈ ['+', '-', '.', 'e', 'E'], d.toNat ≤ 127 := by simp
      exact marks c mark
  rw [Char.utf8Size_eq_one_iff, UInt32.le_iff_toNat_le]
  exact small

theorem leads_text (h : n.WellFormed) : n.Leads n.text :=
  ⟨h, List.prefix_rfl, fun _ _ front => front.length_le⟩

theorem exists_text_cons (h : n.WellFormed) :
    ∃ c rest, n.text = Sign.text n.sign ++ c :: rest ∧ (c.isDigit = true ∨ c = '.') := by
  rcases h.some_digit with whole | fraction
  · obtain ⟨c, digits, shown⟩ := List.exists_cons_of_ne_nil whole
    exact ⟨c, _, by rw [text, shown, List.cons_append], .inl (h.whole c (by simp [shown]))⟩
  · cases whole : n.whole with
    | cons c digits => exact ⟨c, _, by rw [text, whole, List.cons_append], .inl (h.whole c (by simp [whole]))⟩
    | nil =>
      obtain ⟨c, digits, shown⟩ := List.exists_cons_of_ne_nil fraction
      exact ⟨'.', _, by rw [text, whole, shown, fractionText, List.nil_append, List.cons_append], .inr rfl⟩

theorem dropWhile_isBlank_text (h : n.WellFormed) : n.text.dropWhile Text.isBlank = n.text := by
  obtain ⟨c, rest, shown, first⟩ := n.exists_text_cons h
  rw [shown]
  rcases first with digit | rfl
  · exact Leading.dropWhile_isBlank n.sign digit rest
  · rcases n.sign with _ | _ | _ <;> rfl

theorem places_eq_fraction {cs : List Char} (h : (Leading.fraction cs).2.head? ≠ some '.') :
    Binary64.places cs = Leading.fraction cs := by
  unfold Leading.fraction at h ⊢
  split
  · next rest =>
    simp only at h ⊢
    split at h
    · simp at h
    · next some => rw [if_neg some]; rfl
  · next other =>
    unfold Binary64.places
    split
    · next rest => exact absurd rfl (other rest)
    · rfl

theorem toLower_of_isDigit {c : Char} (h : c.isDigit = true) : c.toLower = c := by
  have small : c.toNat ≤ 57 := (Leading.Bytes.toNat_of_isDigit.1 h).2
  have notLarge : ¬ (c.val ≥ 'A'.val ∧ c.val ≤ 'Z'.val) := by
    rintro ⟨large, -⟩
    have least : 65 ≤ c.toNat := UInt32.le_iff_toNat_le.1 large
    omega
  exact dif_neg notLarge

theorem map_toLower_ne {c d : Char} {cs ds : List Char} (first : c.isDigit = true ∨ c = '.')
    (letter : d ≠ '.' ∧ d.isDigit = false) : (c :: cs).map Char.toLower ≠ d :: ds := by
  intro same
  have head : c.toLower = d := (List.cons.inj same).1
  rcases first with digit | rfl
  · rw [toLower_of_isDigit digit] at head
    rw [head, letter.2] at digit
    cases digit
  · exact letter.1 head.symm

theorem exponentText_head (h : n.WellFormed) : (exponentText n.exponent).head? ≠ some '.' := by
  cases shown : n.exponent with
  | none => simp [exponentText]
  | some x =>
    rcases (h.exponent x shown).mark with mark | mark <;> simp [exponentText, WrittenExponent.text, mark]

theorem parts_of_text (h : n.WellFormed) {body : List Char} (signed : Sign.read n.text = (n.sign, body)) :
    let behind := Leading.fraction (body.dropWhile Char.isDigit)
    n.whole = body.takeWhile Char.isDigit ∧ n.fraction = behind.1 ∧ n.exponent = WrittenExponent.read? behind.2 ∧
      exponentText n.exponent = behind.2 := by
  intro behind
  have parts := (leads_text h).eq_scan
  simp only [scan, signed] at parts
  have whole : n.whole = body.takeWhile Char.isDigit := congrArg FrontNumber.whole parts
  have fraction : n.fraction = behind.1 := congrArg FrontNumber.fraction parts
  refine ⟨whole, fraction, congrArg FrontNumber.exponent parts, ?_⟩
  have shown := Sign.text_read n.text
  rw [signed] at shown
  have unsigned : n.whole ++ (fractionText n.fraction ++ exponentText n.exponent) = body :=
    List.append_cancel_left shown.symm
  have digits : body.takeWhile Char.isDigit ++ body.dropWhile Char.isDigit = body := List.takeWhile_append_dropWhile
  have point : fractionText behind.1 ++ behind.2 = body.dropWhile Char.isDigit := (fraction_spec _).1
  rw [← digits, ← whole, ← point, ← fraction] at unsigned
  exact List.append_cancel_left (List.append_cancel_left unsigned)

theorem read?_text (h : n.WellFormed) : Binary64.read? n.text = some n.number := by
  obtain ⟨c, rest, shown, first⟩ := n.exists_text_cons h
  have signed : Sign.read n.text = (n.sign, c :: rest) := by
    rw [shown]
    exact read_sign n.sign first
  obtain ⟨whole, fraction, exponent, behind⟩ := parts_of_text h signed
  have name (ds : List Char) : (c :: rest).map Char.toLower ≠ 'n' :: ds ∧ (c :: rest).map Char.toLower ≠ 'i' :: ds :=
    ⟨map_toLower_ne first (by decide), map_toLower_ne first (by decide)⟩
  -- The mark of an exponent is no point, so both readers stop in front of it.
  have places : Binary64.places ((c :: rest).dropWhile Char.isDigit) =
      Leading.fraction ((c :: rest).dropWhile Char.isDigit) :=
    places_eq_fraction (behind ▸ exponentText_head h)
  have digits : ¬ (n.whole = [] ∧ n.fraction = []) := fun none => h.some_digit.elim (absurd none.1) (absurd none.2)
  simp only [Binary64.read?, signed, places, name, or_self, if_false, ← whole, ← fraction, ← exponent, behind, digits,
    not_true_eq_false, ne_eq]

end FrontNumber

/-- The scan by bytes cuts no character, and what it cuts off is read. -/
theorem Leading.Bytes.number_eq (text : String) : number text = .ok (Leading.number? text.toList) := by
  rw [FrontNumber.number?_eq_scan]
  simp only [number, Text.utf8_eq_flatMap, String.toList_ofList, numberEnd?_eq]
  by_cases digit : (FrontNumber.scan (text.toList.dropWhile Text.isBlank)).whole = [] ∧
      (FrontNumber.scan (text.toList.dropWhile Text.isBlank)).fraction = []
  · simp only [digit, and_self, if_true]
  · have leads := FrontNumber.leads_scan (Decidable.not_and_iff_or_not.1 digit)
    obtain ⟨rest, same⟩ := leads.front
    have cut := cut?_append (fun c mem => FrontNumber.utf8Size_of_mem_text leads.wellFormed mem) rest
    rw [same] at cut
    simp only [digit, if_false, cut, FrontNumber.read?_text leads.wellFormed]

end SpeechMarkup
