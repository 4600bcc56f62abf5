import Mathlib.Data.List.Nodup
import Mathlib.Tactic.SplitIfs
import SpeechMarkup.Dictionary

/-! The order of texts by their bytes. Encoded in UTF-8, texts compare byte by byte as they compare character by
character, so the entries of a dictionary stand in the order of the bytes of their keys. -/

namespace SpeechMarkup

namespace Text

def utf8 (text : String) : List UInt8 :=
  text.toUTF8.data.toList

theorem utf8_eq_flatMap (text : String) : utf8 text = text.toList.flatMap String.utf8EncodeChar := by
  have encoded : (String.ofList text.toList).toByteArray = text.toList.utf8Encode := String.toByteArray_ofList
  rw [String.ofList_toList] at encoded
  rw [utf8, String.toUTF8_eq_toByteArray, encoded, List.utf8Encode, List.data_toByteArray]

theorem toNat_byte {n : Nat} (h : n < 256) : (UInt8.ofNat n).toNat = n :=
  UInt8.toNat_ofNat_of_lt' h

theorem lt_places {v w : Nat} (h : v < w) : v / 64 < w / 64 ∨ v / 64 = w / 64 ∧ v % 64 < w % 64 := by
  omega

/-- Four bytes carry the places of a number to the base 64, so they compare as the numbers do. -/
theorem lt_four_places {v w : Nat} (h : v < w) (last : w < 0x110000) :
    v / 262144 % 8 < w / 262144 % 8 ∨ v / 262144 % 8 = w / 262144 % 8 ∧
      (v / 4096 % 64 < w / 4096 % 64 ∨ v / 4096 % 64 = w / 4096 % 64 ∧
        (v / 64 % 64 < w / 64 % 64 ∨ v / 64 % 64 = w / 64 % 64 ∧ v % 64 < w % 64)) := by
  have two (n : Nat) : n / 64 / 64 = n / 4096 := Nat.div_div_eq_div_mul n 64 64
  have three (n : Nat) : n / 4096 / 64 = n / 262144 := Nat.div_div_eq_div_mul n 4096 64
  rcases lt_places h with first | ⟨same, below⟩
  · have second := lt_places first
    rw [two, two] at second
    rcases second with second | ⟨same, below⟩
    · have third := lt_places second
      rw [three, three] at third
      rcases third with third | ⟨same, below⟩ <;> omega
    · omega
  · omega

/-- Of two characters the smaller one has smaller bytes, whatever stands behind them. -/
theorem encode_lt {c d : Char} (h : c < d) (x y : List UInt8) :
    String.utf8EncodeChar c ++ x < String.utf8EncodeChar d ++ y := by
  have order : c.val.toNat < d.val.toNat := h
  have last : d.val.toNat < 0x110000 := by
    rcases d.valid with low | high
    · exact Nat.lt_trans low (by decide)
    · exact high.2
  unfold String.utf8EncodeChar
  generalize c.val.toNat = v at *
  generalize d.val.toNat = w at *
  dsimp only
  -- The first byte tells how many follow; only between two long codes all of them have to be looked at.
  by_cases long : v ≤ 65535
  · split_ifs <;>
      simp (disch := omega) only [List.cons_append, List.nil_append, List.cons_lt_cons_iff, UInt8.lt_iff_toNat_lt,
        ← UInt8.toNat_inj, toNat_byte] <;>
      omega
  · have places := lt_four_places order last
    simp (disch := omega) only [if_neg, List.cons_append, List.nil_append, List.cons_lt_cons_iff,
      UInt8.lt_iff_toNat_lt, ← UInt8.toNat_inj, toNat_byte]
    omega

theorem utf8_lt_of_lt {a b : String} (h : a < b) : utf8 a < utf8 b := by
  rw [utf8_eq_flatMap, utf8_eq_flatMap]
  have order : a.toList < b.toList := h
  generalize a.toList = as at order
  generalize b.toList = bs at order
  induction order with
  | @nil c rest =>
    rw [List.flatMap_nil, List.flatMap_cons]
    obtain ⟨byte, more, shown⟩ := List.exists_cons_of_ne_nil (String.utf8EncodeChar_ne_nil (c := c))
    rw [shown]
    exact List.nil_lt_cons _ _
  | rel smaller => exact encode_lt smaller _ _
  | @cons c as bs _ ih =>
    rw [List.flatMap_cons, List.flatMap_cons]
    exact List.append_left_lt ih

end Text

variable {α : Type}

theorem KeySorted.nodup {entries : List (String × α)} (sorted : KeySorted entries) :
    (entries.map Prod.fst).Nodup := by
  rw [List.Nodup, List.pairwise_map]
  exact sorted.imp String.ne_of_lt

theorem KeySorted.eq_of_perm {a b : List (String × α)} (ha : KeySorted a) (hb : KeySorted b) (perm : a.Perm b) :
    a = b :=
  perm.eq_of_pairwise (fun _ _ _ _ below above => (String.lt_asymm below above).elim) ha hb

theorem Dictionary.ext_get? {d e : Dictionary α} (same : ∀ key, d.get? key = e.get? key) : d = e := by
  refine ext (d.sorted.eq_of_perm e.sorted ?_)
  refine (List.perm_ext_iff_of_nodup d.sorted.nodup.of_map e.sorted.nodup.of_map).2 fun entry => ?_
  rw [← get?_eq_some_iff, ← get?_eq_some_iff, same]

/-- These are the entries of the dictionary, in the order of the bytes of their keys. -/
structure Dictionary.Lists (d : Dictionary α) (entries : List (String × α)) : Prop where
  mem_iff : ∀ key value, (key, value) ∈ entries ↔ d.get? key = some value
  ascending : entries.Pairwise fun a b => Text.utf8 a.1 < Text.utf8 b.1

theorem Dictionary.lists_entries (d : Dictionary α) : d.Lists d.entries where
  mem_iff _ _ := get?_eq_some_iff.symm
  ascending := d.sorted.imp Text.utf8_lt_of_lt

end SpeechMarkup
