import EmailTemplate.Html.InlineStyle
import EmailTemplate.Proofs.Decimal.Underflow
import EmailTemplate.Proofs.Text.Search
import Mathlib.Data.List.TakeWhile
import Mathlib.Data.Nat.Digits.Defs
import Mathlib.Algebra.Order.Field.Rat
import Mathlib.Data.Nat.Cast.Order.Basic
import Mathlib.Tactic.NormNum
import Mathlib.Tactic.Positivity

/-! Decimal numbers in styles. One is taken for zero if it is not above one half of the least double. -/

namespace EmailTemplate.Html

open Text

-- What holds of each character of a text is decided along the text, not along all characters.
instance decidableForallMem (s : List Char) (p : Char → Prop) [DecidablePred p] :
    Decidable (∀ c ∈ s, p c) :=
  List.decidableBAll p s

/-- A decimal number as it is written, with a plus before it or not and with a point or not. There is
a digit at least before or behind the point. -/
structure Numeral where
  plus : Bool
  whole : List Char
  places : Option (List Char)
  isAsciiDigit_of_mem : ∀ c ∈ whole ++ places.getD [], isAsciiDigit c = true
  digits_ne_nil : whole ++ places.getD [] ≠ []

namespace Numeral

variable (n : Numeral)

def digits : List Char := n.whole ++ n.places.getD []

def unsigned : List Char := n.whole ++ n.places.elim [] ('.' :: ·)

def text : List Char := (if n.plus then ['+'] else []) ++ n.unsigned

/-- The number without its point. -/
def scaled : Nat := Nat.ofDigits 10 (n.digits.reverse.map digitValue)

def value : ℚ := n.scaled / 10 ^ (n.places.getD []).length

theorem foldl_digits (cs : List Char) : cs.foldl (fun n c => 10 * n + digitValue c) 0 =
    Nat.ofDigits 10 (cs.reverse.map digitValue) := by
  rw [Nat.ofDigits_eq_foldr, List.foldr_map, List.foldr_reverse]
  simp only [Nat.cast_id, add_comm]

theorem isAsciiDigit_of_mem_whole {c : Char} (h : c ∈ n.whole) : isAsciiDigit c = true :=
  n.isAsciiDigit_of_mem c (List.mem_append_left _ h)

theorem isAsciiDigit_of_mem_places {c : Char} (h : c ∈ n.places.getD []) : isAsciiDigit c = true :=
  n.isAsciiDigit_of_mem c (List.mem_append_right _ h)

theorem mem_unsigned {c : Char} (h : c ∈ n.unsigned) : isAsciiDigit c = true ∨ c = '.' := by
  rw [unsigned] at h
  rcases List.mem_append.mp h with h | h
  · exact .inl (n.isAsciiDigit_of_mem_whole h)
  · cases hplaces : n.places with
    | none => simp [hplaces] at h
    | some places =>
      rw [hplaces] at h
      rcases List.mem_cons.mp h with rfl | h
      · exact .inr rfl
      · exact .inl (n.isAsciiDigit_of_mem_places (by simpa [hplaces] using h))

theorem takeWhile_unsigned : n.unsigned.takeWhile isAsciiDigit = n.whole := by
  have hwhole : ∀ c ∈ n.whole, isAsciiDigit c = true := fun c hc => n.isAsciiDigit_of_mem_whole hc
  rw [unsigned]
  cases n.places with
  | none => simp [List.takeWhile_eq_self_iff.mpr hwhole]
  | some places => exact takeWhile_append_stop hwhole (by decide)

theorem dropWhile_unsigned : n.unsigned.dropWhile isAsciiDigit = n.places.elim [] ('.' :: ·) := by
  have hwhole : ∀ c ∈ n.whole, isAsciiDigit c = true := fun c hc => n.isAsciiDigit_of_mem_whole hc
  rw [unsigned]
  cases n.places with
  | none => simp [List.dropWhile_eq_nil_iff.mpr hwhole]
  | some places => exact dropWhile_append_stop hwhole (by decide)

theorem unsigned_ne_cons {c : Char} (hc : c = '+' ∨ c = '-') (s : List Char) : n.unsigned ≠ c :: s := by
  intro he
  have hmem := n.mem_unsigned (he ▸ List.mem_cons_self)
  rcases hc with rfl | rfl
  · revert hmem
    decide
  · revert hmem
    decide

theorem magnitude?_unsigned :
    magnitude? n.unsigned = some (n.scaled, Nat.pow 10 (n.places.getD []).length) := by
  have hplaces : (n.places.getD []).all isAsciiDigit = true :=
    List.all_eq_true.mpr fun c hc => n.isAsciiDigit_of_mem_places hc
  have hsome : ¬ (n.whole ++ n.places.getD []).isEmpty = true := by
    rw [List.isEmpty_iff]
    exact n.digits_ne_nil
  have hscaled : (n.whole ++ n.places.getD []).foldl (fun n c => 10 * n + digitValue c) 0 =
      n.scaled := foldl_digits n.digits
  rw [magnitude?, takeWhile_unsigned, dropWhile_unsigned]
  · cases hn : n.places with
    | none =>
      rw [hn, Option.getD_none] at hsome hscaled
      simp only [Option.elim_none, Option.getD_none, if_neg hsome, hscaled]
    | some places =>
      rw [hn, Option.getD_some] at hplaces hsome hscaled
      simp only [Option.elim_some, Option.getD_some, if_pos hplaces, if_neg hsome, hscaled]
  · exact n.unsigned_ne_cons (.inl rfl)
  · exact n.unsigned_ne_cons (.inr rfl)

theorem magnitude?_text : magnitude? n.text = some (n.scaled, Nat.pow 10 (n.places.getD []).length) := by
  rw [← magnitude?_unsigned, text]
  cases n.plus with
  | true =>
    have hsame : magnitude? ('+' :: n.unsigned) = magnitude? n.unsigned := by
      rw [magnitude?, magnitude?]
      · exact n.unsigned_ne_cons (.inl rfl)
      · exact n.unsigned_ne_cons (.inr rfl)
    exact hsame
  | false => rfl

theorem text_ne_nil : n.text ≠ [] := by
  have hunsigned : n.unsigned ≠ [] := by
    have hsome := n.digits_ne_nil
    rw [unsigned]
    cases hn : n.places with
    | none => simpa [hn] using hsome
    | some places => simp
  exact List.append_ne_nil_of_right_ne_nil _ hunsigned

theorem isNumberChar_of_mem_text {c : Char} (h : c ∈ n.text) : isNumberChar c = true := by
  rw [text, List.mem_append] at h
  rcases h with h | h
  · obtain rfl : c = '+' := by
      split at h
      · exact List.mem_singleton.mp h
      · cases h
    decide
  · rcases n.mem_unsigned h with h | rfl
    · simp [isNumberChar, h]
    · decide

theorem div_le_one_div_two_pow_iff {a b : Nat} (hb : 0 < b) (k : Nat) :
    (a : ℚ) / b ≤ 1 / 2 ^ k ↔ a * 2 ^ k ≤ b := by
  rw [div_le_div_iff₀ (by exact_mod_cast hb) (by positivity), one_mul]
  exact_mod_cast Iff.rfl

/-- A length is zero if its number is not above one half of the least double. -/
theorem isZeroLength_append {unit : List Char} (h : ∀ c ∈ unit, isNumberChar c = false) :
    isZeroLength (n.text ++ unit) = true ↔ n.value ≤ 1 / 2 ^ 1075 := by
  have htext : ∀ c ∈ n.text, isNumberChar c = true := fun c hc => n.isNumberChar_of_mem_text hc
  have htake : (n.text ++ unit).takeWhile isNumberChar = n.text := by
    cases unit with
    | nil => rw [List.append_nil, List.takeWhile_eq_self_iff.mpr htext]
    | cons c unit => exact takeWhile_append_stop htext (h c List.mem_cons_self)
  have hvalue : n.value = (n.scaled : ℚ) / (Nat.pow 10 (n.places.getD []).length : Nat) := by
    rw [value, Nat.pow_eq, Nat.cast_pow, Nat.cast_ofNat]
  have hpos : 0 < Nat.pow 10 (n.places.getD []).length := Nat.pow_pos (by decide)
  rw [isZeroLength, htake, magnitude?_text, hvalue, div_le_one_div_two_pow_iff hpos,
    ← Double.nearestRank_eq_zero_iff hpos]
  exact beq_iff_eq

def half : Numeral := ⟨false, ['0'], some ['5'], by decide, by decide⟩

theorem value_half : half.value = 1 / 2 := by
  have hscaled : half.scaled = 5 := by decide
  rw [value, hscaled, half]
  norm_num

/-- A point, 323 zeros and a one. -/
def minute : Numeral :=
  ⟨false, [], some (List.replicate 323 '0' ++ ['1']), by decide +kernel, by decide +kernel⟩

theorem minute_pos_and_le : 0 < minute.value ∧ minute.value ≤ 1 / 2 ^ 1075 := by
  have hscaled : minute.scaled = 1 := by decide +kernel
  have hlength : (minute.places.getD []).length = 324 := by decide +kernel
  have hvalue : minute.value = ((1 : Nat) : ℚ) / (10 ^ 324 : Nat) := by
    rw [value, hscaled, hlength, Nat.cast_pow, Nat.cast_ofNat (n := 10)]
  rw [hvalue, div_le_one_div_two_pow_iff (Nat.pow_pos (by decide))]
  exact ⟨by positivity, by decide +kernel⟩

end Numeral

end EmailTemplate.Html
