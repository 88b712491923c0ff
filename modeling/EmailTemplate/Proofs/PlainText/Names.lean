import EmailTemplate.Proofs.PlainText.Fragment
import EmailTemplate.Proofs.Text.Blank

/-! Names of lower-case letters and digits, and what reading a name in any case finds at one. -/

namespace EmailTemplate.PlainText

open Text

/-! ### Characters of names -/

theorem char_le_iff {c d : Char} : c ≤ d ↔ c.toNat ≤ d.toNat := by
  rw [Char.le_def, UInt32.le_iff_toNat_le]
  rfl

theorem isNameChar_iff {c : Char} : isNameChar c = true ↔
    (97 ≤ c.toNat ∧ c.toNat ≤ 122) ∨ (48 ≤ c.toNat ∧ c.toNat ≤ 57) := by
  simp only [isNameChar, isAsciiLower, isAsciiDigit, Bool.or_eq_true, Bool.and_eq_true,
    decide_eq_true_eq, char_le_iff]
  exact Iff.rfl

theorem isNameChar_of_lower {c : Char} (h : isAsciiLower c = true) : isNameChar c = true := by
  rw [isNameChar, h, Bool.true_or]

theorem asciiLower_of_not_upper {c : Char} (h : c.toNat < 65 ∨ 90 < c.toNat) :
    asciiLower c = c := by
  rw [asciiLower, if_neg]
  rw [char_le_iff, char_le_iff]
  have hA : 'A'.toNat = 65 := rfl
  have hZ : 'Z'.toNat = 90 := rfl
  omega

theorem asciiLower_of_isNameChar {c : Char} (h : isNameChar c = true) : asciiLower c = c := by
  rw [isNameChar_iff] at h
  exact asciiLower_of_not_upper (by omega)

theorem isWord_of_isNameChar {c : Char} (h : isNameChar c = true) : isWord c = true := by
  have hrange := isNameChar_iff.mp h
  have hlt : c.toNat < 128 := by omega
  rw [isWord, if_pos hlt, isAsciiAlphanumeric, isAsciiLetter]
  rw [isNameChar, Bool.or_eq_true] at h
  rcases h with h | h <;> simp [h]

theorem not_blank_of_isNameChar {c : Char} (h : isNameChar c = true) : isBlank c = false := by
  cases hblank : isBlank c with
  | false => rfl
  | true =>
    have hword := isWord_of_isBlank hblank
    rw [isWord_of_isNameChar h] at hword
    cases hword

theorem ne_of_isNameChar {c d : Char} (h : isNameChar c = true) (hd : isNameChar d = false) :
    c ≠ d := by
  rintro rfl
  rw [h] at hd
  cases hd

theorem not_mem_of_isNameChar {name : List Char} (h : ∀ c ∈ name, isNameChar c = true) {d : Char}
    (hd : isNameChar d = false) : d ∉ name := fun hm => ne_of_isNameChar (h d hm) hd rfl

/-- Among the first 128 characters, case is that of letters. -/
theorem isCaseOf_of_lt {k c : Char} (h : c.toNat < 128) : isCaseOf k c = (asciiLower c == k) := by
  have hs : (c.toNat == 0x17f) = false := beq_false_of_ne (by omega)
  have hk : (c.toNat == 0x212a) = false := beq_false_of_ne (by omega)
  rw [isCaseOf, hs, hk, Bool.and_false, Bool.and_false, Bool.or_false, Bool.or_false]

theorem isCaseOf_of_isNameChar {k c : Char} (h : isNameChar c = true) :
    isCaseOf k c = (c == k) := by
  have hrange := isNameChar_iff.mp h
  rw [isCaseOf_of_lt (by omega), asciiLower_of_isNameChar h]

/-- A character that no name goes on with, in any case. -/
def EndsName (d : Char) : Prop := d.toNat < 128 ∧ isNameChar (asciiLower d) = false

instance (d : Char) : Decidable (EndsName d) := inferInstanceAs (Decidable (_ ∧ _))

theorem EndsName.not_isCaseOf {d k : Char} (hd : EndsName d) (hk : isNameChar k = true) :
    isCaseOf k d = false := by
  rw [isCaseOf_of_lt hd.1, beq_eq_false_iff_ne]
  exact (ne_of_isNameChar hk hd.2).symm

/-- A character that is no letter is in no case but its own. -/
theorem eq_of_isCaseOf {k c : Char} (hk : isAsciiLower k = false) (h : isCaseOf k c = true) :
    c = k := by
  have hother : ∀ d : Char, isAsciiLower d = true → (k == d) = false := by
    intro d hd
    rw [beq_eq_false_iff_ne]
    rintro rfl
    rw [hk] at hd
    cases hd
  rw [isCaseOf, hother 's' (by decide), hother 'k' (by decide), Bool.false_and, Bool.false_and,
    Bool.or_false, Bool.or_false, beq_iff_eq] at h
  by_cases hupper : 65 ≤ c.toNat ∧ c.toNat ≤ 90
  · have hlower : ∀ n < 91, 65 ≤ n → isAsciiLower (Char.ofNat (n + 32)) = true := by decide
    have hle : 'A' ≤ c ∧ c ≤ 'Z' := by
      rw [char_le_iff, char_le_iff]
      exact hupper
    rw [asciiLower, if_pos hle] at h
    rw [← h, hlower c.toNat (by omega) hupper.1] at hk
    cases hk
  · rwa [asciiLower_of_not_upper (by omega)] at h

/-! ### Names -/

theorem afterAnyCase?_cons_of_not {k c : Char} {m s : List Char} (h : isCaseOf k c = false) :
    afterAnyCase? (k :: m) (c :: s) = none := by
  rw [afterAnyCase?, h]
  rfl

theorem afterAnyCase?_self {name : List Char} (h : ∀ c ∈ name, isNameChar c = true)
    (s : List Char) : afterAnyCase? name (name ++ s) = some s := by
  induction name with
  | nil => rfl
  | cons c name ih =>
    rw [List.forall_mem_cons] at h
    rw [List.cons_append, afterAnyCase?, isCaseOf_of_isNameChar h.1, beq_self_eq_true, if_pos rfl,
      ih h.2]

/-- What is read of another name leaves a character of that name. -/
theorem afterAnyCase?_of_ne {m name : List Char} (hm : ∀ c ∈ m, isNameChar c = true)
    (hname : ∀ c ∈ name, isNameChar c = true) (hne : m ≠ name) {d : Char} (hd : EndsName d)
    (s : List Char) : afterAnyCase? m (name ++ d :: s) = none ∨
      ∃ c t, isNameChar c = true ∧ afterAnyCase? m (name ++ d :: s) = some (c :: t) := by
  induction m generalizing name with
  | nil =>
    obtain ⟨c, name, rfl⟩ := List.exists_cons_of_ne_nil (Ne.symm hne)
    exact .inr ⟨c, name ++ d :: s, hname c List.mem_cons_self, rfl⟩
  | cons k m ih =>
    rw [List.forall_mem_cons] at hm
    cases name with
    | nil => exact .inl (afterAnyCase?_cons_of_not (hd.not_isCaseOf hm.1))
    | cons c name =>
      rw [List.forall_mem_cons] at hname
      by_cases hck : c = k
      · subst hck
        have hrest : m ≠ name := fun h => hne (by rw [h])
        rw [List.cons_append, afterAnyCase?, isCaseOf_of_isNameChar hname.1, beq_self_eq_true,
          if_pos rfl]
        exact ih hm.2 hname.2 hrest
      · have hcase : isCaseOf k c = false := by
          rwa [isCaseOf_of_isNameChar hname.1, beq_eq_false_iff_ne]
        exact .inl (afterAnyCase?_cons_of_not hcase)

end EmailTemplate.PlainText
