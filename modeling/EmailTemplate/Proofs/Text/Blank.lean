import EmailTemplate.Proofs.Text.Search
import EmailTemplate.Text.Blank
import EmailTemplate.Text.Word
import Mathlib.Data.List.DropRight
import Mathlib.Tactic.Common

/-! Trimming takes blanks alone, and blanks are not word characters: no range of the one table meets
a range of the other. -/

namespace EmailTemplate.Text

/-! ### Trimming -/

/-- All characters of a text are of a kind, or there is a first that is not. -/
theorem all_or_exists_first (p : Char → Bool) (s : List Char) : (∀ c ∈ s, p c = true) ∨
    ∃ u c v, s = u ++ c :: v ∧ p c = false ∧ ∀ d ∈ u, p d = true := by
  have hsplit := List.takeWhile_append_dropWhile (p := p) (l := s)
  cases hdrop : s.dropWhile p with
  | nil => exact .inl (List.dropWhile_eq_nil_iff.mp hdrop)
  | cons c v =>
    have hfirst := List.head?_dropWhile_not p s
    rw [hdrop] at hsplit hfirst
    exact .inr ⟨_, c, v, hsplit.symm, by simpa using hfirst, fun d hd => List.mem_takeWhile_imp hd⟩

theorem all_or_exists_last (p : Char → Bool) (s : List Char) : (∀ c ∈ s, p c = true) ∨
    ∃ u c v, s = u ++ c :: v ∧ p c = false ∧ ∀ d ∈ v, p d = true := by
  rcases all_or_exists_first p s.reverse with h | ⟨u, c, v, hs, hc, hu⟩
  · exact .inl fun c hc => h c (List.mem_reverse.mpr hc)
  · refine .inr ⟨v.reverse, c, u.reverse, ?_, hc, fun d hd => hu d (List.mem_reverse.mp hd)⟩
    rw [← List.reverse_reverse s, hs]
    simp

theorem rdropWhile_append_stop {p : Char → Bool} {u s : List Char} {c : Char}
    (hs : ∀ x ∈ s, p x = true) (hc : p c = false) : (u ++ c :: s).rdropWhile p = u ++ [c] := by
  have hreverse : (u ++ c :: s).reverse = s.reverse ++ c :: u.reverse := by simp
  rw [List.rdropWhile, hreverse,
    dropWhile_append_stop (fun x hx => hs x (List.mem_reverse.mp hx)) hc]
  simp

theorem infix_dropWhile {p : Char → Bool} {w s : List Char} (hw : ∀ c ∈ w, p c = false)
    (h : w <:+: s) : w <:+: s.dropWhile p := by
  induction s with
  | nil => exact h
  | cons c s ih =>
    cases hc : p c with
    | false => rwa [List.dropWhile_cons_of_neg (by simp [hc])]
    | true =>
      rw [List.dropWhile_cons_of_pos hc]
      rcases List.infix_cons_iff.mp h with h | h
      · cases w with
        | nil => exact List.nil_infix
        | cons d w =>
          obtain rfl := (List.cons_prefix_cons.mp h).1
          rw [hw d List.mem_cons_self] at hc
          cases hc
      · exact ih h

theorem infix_trim {w s : List Char} (hw : ∀ c ∈ w, isBlank c = false) (h : w <:+: s) :
    w <:+: trim s := by
  have hleft : w.reverse <:+: (trimLeft s).reverse := List.reverse_infix.mpr (infix_dropWhile hw h)
  have hreverse : ∀ c ∈ w.reverse, isBlank c = false := fun c hc => hw c (List.mem_reverse.mp hc)
  rw [trim, trimRight, ← List.reverse_infix, List.reverse_reverse]
  exact infix_dropWhile hreverse hleft

theorem trim_of_ends {s : List Char} (hfirst : ∀ c ∈ s.head?, isBlank c = false)
    (hlast : ∀ c ∈ s.getLast?, isBlank c = false) : trim s = s := by
  have hkeep : ∀ t : List Char, (∀ c ∈ t.head?, isBlank c = false) → t.dropWhile isBlank = t := by
    intro t ht
    cases t with
    | nil => rfl
    | cons c t => exact List.dropWhile_cons_of_neg (by simp [ht c rfl])
  rw [trim, trimLeft, hkeep s hfirst, trimRight, hkeep _ (by rwa [List.head?_reverse]),
    List.reverse_reverse]

theorem trim_of_blankless {s : List Char} (h : ∀ c ∈ s, isBlank c = false) : trim s = s :=
  trim_of_ends (fun c hc => h c (List.mem_of_mem_head? hc)) fun c hc => h c (List.mem_of_mem_getLast? hc)

theorem trim_around {b w b' : List Char} (hb : ∀ c ∈ b, isBlank c = true)
    (hb' : ∀ c ∈ b', isBlank c = true) : trim (b ++ (w ++ b')) = trim w := by
  have hright : ∀ s, trimRight (s ++ b') = trimRight s := by
    intro s
    have hreverse : ∀ c ∈ b'.reverse, isBlank c = true := fun c hc => hb' c (List.mem_reverse.mp hc)
    rw [trimRight, trimRight, List.reverse_append, List.dropWhile_append_of_pos hreverse]
  have hleft : trimLeft (b ++ (w ++ b')) = trimLeft (w ++ b') := List.dropWhile_append_of_pos hb
  rw [trim, trim, hleft, trimLeft, List.dropWhile_append]
  split
  · next hempty =>
    rw [List.dropWhile_eq_nil_iff.mpr hb', trimLeft, List.isEmpty_iff.mp hempty]
  · exact hright _

/-- Around what is left there are blanks alone. -/
theorem exists_blanks_around_trim (s : List Char) : ∃ b b' : List Char,
    (∀ c ∈ b, isBlank c = true) ∧ (∀ c ∈ b', isBlank c = true) ∧ s = b ++ (trim s ++ b') := by
  have hleft : s.takeWhile isBlank ++ trimLeft s = s := List.takeWhile_append_dropWhile
  have hright : trim s ++ ((trimLeft s).reverse.takeWhile isBlank).reverse = trimLeft s := by
    have hreverse := List.takeWhile_append_dropWhile (p := isBlank) (l := (trimLeft s).reverse)
    have hback := congrArg List.reverse hreverse
    rwa [List.reverse_append, List.reverse_reverse] at hback
  refine ⟨s.takeWhile isBlank, ((trimLeft s).reverse.takeWhile isBlank).reverse, ?_, ?_, ?_⟩
  · exact fun c hc => List.mem_takeWhile_imp hc
  · exact fun c hc => List.mem_takeWhile_imp (List.mem_reverse.mp hc)
  · rw [hright, hleft]

theorem trim_isInfix (s : List Char) : trim s <:+: s := by
  obtain ⟨b, b', -, -, hs⟩ := exists_blanks_around_trim s
  exact ⟨b, b', by rw [List.append_assoc, ← hs]⟩

theorem trim_sublist (s : List Char) : (trim s).Sublist s := (trim_isInfix s).sublist

theorem trim_eq_nil_iff {s : List Char} : trim s = [] ↔ ∀ c ∈ s, isBlank c = true := by
  constructor
  · intro h c hc
    obtain ⟨b, b', hb, hb', hs⟩ := exists_blanks_around_trim s
    rw [hs, h, List.nil_append] at hc
    exact (List.mem_append.mp hc).elim (hb c) (hb' c)
  · intro h
    rw [trim, trimLeft, List.dropWhile_eq_nil_iff.mpr h]
    rfl

/-- A text with more than blanks inside has more than blanks. -/
theorem trim_ne_nil_of_infix {w s : List Char} (h : w <:+: s) (hw : trim w ≠ []) : trim s ≠ [] :=
  fun hs => hw (trim_eq_nil_iff.mpr fun c hc => trim_eq_nil_iff.mp hs c (h.subset hc))

theorem trimLeft_of_blank {s : List Char} (h : ∀ c ∈ s, isBlank c = true) : trimLeft s = [] :=
  List.dropWhile_eq_nil_iff.mpr h

theorem trimRight_of_blank {s : List Char} (h : ∀ c ∈ s, isBlank c = true) : trimRight s = [] := by
  rw [trimRight, List.dropWhile_eq_nil_iff.mpr fun c hc => h c (List.mem_reverse.mp hc),
    List.reverse_nil]

theorem exists_blanks_before_trimLeft (s : List Char) :
    ∃ b, (∀ c ∈ b, isBlank c = true) ∧ s = b ++ trimLeft s :=
  ⟨s.takeWhile isBlank, fun _ hc => List.mem_takeWhile_imp hc,
    List.takeWhile_append_dropWhile.symm⟩

theorem trimLeft_append_cons {c : Char} (hc : isBlank c = false) (u v : List Char) :
    trimLeft (u ++ c :: v) = trimLeft u ++ c :: v := by
  rw [trimLeft, List.dropWhile_append]
  split
  · next hempty =>
    rw [List.dropWhile_cons_of_neg (by simp [hc]), trimLeft, List.isEmpty_iff.mp hempty,
      List.nil_append]
  · rfl

theorem trimRight_append_cons {c : Char} (hc : isBlank c = false) (u s : List Char) :
    trimRight (u ++ c :: s) = u ++ c :: trimRight s := by
  have hneg : ¬ isBlank c = true := by simp [hc]
  have hreverse : (u ++ c :: s).reverse = s.reverse ++ c :: u.reverse := by simp
  rw [trimRight, trimRight, hreverse, List.dropWhile_append]
  split
  · next h =>
    rw [List.isEmpty_iff] at h
    simp [h, List.dropWhile_cons_of_neg hneg]
  · simp

theorem trimRight_cons {c : Char} (hc : isBlank c = false) (s : List Char) :
    trimRight (c :: s) = c :: trimRight s := trimRight_append_cons hc [] s

theorem trim_append_cons {u : List Char} (hu : ∀ c ∈ u, isBlank c = false) {c : Char}
    (hc : isBlank c = false) (s : List Char) : trim (u ++ c :: s) = u ++ c :: trimRight s := by
  have hleft : trimLeft (u ++ c :: s) = u ++ c :: s := by
    cases u with
    | nil => exact List.dropWhile_cons_of_neg (by simp [hc])
    | cons d u => exact List.dropWhile_cons_of_neg (by simp [hu d List.mem_cons_self])
  rw [trim, hleft, trimRight_append_cons hc]

theorem not_blank_of_head?_trim {s : List Char} {c : Char} (h : c ∈ (trim s).head?) :
    isBlank c = false := by
  cases hleft : trimLeft s with
  | nil =>
    rw [trim, hleft] at h
    cases h
  | cons d t =>
    have hd : isBlank d = false := by
      have hfirst := List.head?_dropWhile_not isBlank s
      rw [← trimLeft, hleft] at hfirst
      simpa using hfirst
    rw [trim, hleft, trimRight_cons hd] at h
    obtain rfl : d = c := Option.some.inj h
    exact hd

theorem not_blank_of_getLast?_trim {s : List Char} {c : Char} (h : c ∈ (trim s).getLast?) :
    isBlank c = false := by
  have hfirst := List.head?_dropWhile_not isBlank (trimLeft s).reverse
  rw [trim, trimRight, List.getLast?_reverse] at h
  rw [h] at hfirst
  exact hfirst

theorem trim_trim (s : List Char) : trim (trim s) = trim s :=
  trim_of_ends (fun _ => not_blank_of_head?_trim) fun _ => not_blank_of_getLast?_trim

theorem trimRight_cons_blank {c : Char} (hc : isBlank c = true) (s : List Char) :
    trimRight (c :: s) = if trimRight s = [] then [] else c :: trimRight s := by
  rw [trimRight, trimRight, List.reverse_cons, List.dropWhile_append]
  simp only [List.isEmpty_iff, List.reverse_eq_nil_iff]
  split
  · simp [hc]
  · simp

/-! ### Tables in parts -/

def addRange (done : List Range) (start : Option Nat) (n : Nat) : List Range :=
  ⟨start.getD n, n⟩ :: done

theorem rangesOf_ofList (s : List Char) :
    rangesOf (String.ofList s) = rangesOf.go addRange [] none 0 s := by
  rw [rangesOf, String.toList_ofList]
  rfl

theorem go_eq_append (done : List Range) (start : Option Nat) (n : Nat) (s : List Char) :
    rangesOf.go addRange done start n s =
      done.reverse ++ rangesOf.go addRange [] start n s := by
  induction s generalizing done start n with
  | nil => simp [rangesOf.go, addRange]
  | cons c s ih =>
    simp only [rangesOf.go]
    split
    · rw [ih, ih (addRange [] start n)]
      simp [addRange]
    · split
      · exact ih _ _ _
      · split <;> exact ih _ _ _

theorem go_append_blank (done : List Range) (start : Option Nat) (n : Nat) (s t : List Char) :
    rangesOf.go addRange done start n (s ++ ' ' :: t) =
      rangesOf.go addRange done start n s ++ rangesOf.go addRange [] none 0 t := by
  induction s generalizing done start n with
  | nil =>
    have h : rangesOf.go addRange done start n (' ' :: t) =
        rangesOf.go addRange (addRange done start n) none 0 t := rfl
    rw [List.nil_append, h, go_eq_append]
    rfl
  | cons c s ih =>
    simp only [List.cons_append, rangesOf.go]
    split
    · exact ih _ _ _
    · split
      · exact ih _ _ _
      · split <;> exact ih _ _ _

/-- The ranges of a table are those of its rows. -/
theorem rangesOf_intercalate (row : String) (rows : List String) :
    rangesOf (" ".intercalate (row :: rows)) = (row :: rows).flatMap rangesOf := by
  induction rows generalizing row with
  | nil => simp
  | cons next rows ih =>
    have h := go_append_blank [] none 0 row.toList (" ".intercalate (next :: rows)).toList
    simp only [← rangesOf_ofList, String.ofList_toList] at h
    have htable : " ".intercalate (row :: next :: rows) =
        String.ofList (row.toList ++ ' ' :: (" ".intercalate (next :: rows)).toList) := by
      rw [← String.toList_inj, String.intercalate_cons_cons]
      simp
    rw [htable, h, ih next, ← List.flatMap_cons]

/-! ### Blanks -/

/-- Two ranges without a common number. -/
def Range.apart (a b : Range) : Bool := Nat.blt a.last b.first || Nat.blt b.last a.first

theorem Range.not_contains_of_apart {a b : Range} (h : a.apart b = true) {n : Nat}
    (ha : a.contains n = true) : b.contains n = false := by
  simp only [Range.apart, Bool.or_eq_true, Nat.blt_eq] at h
  simp only [Range.contains, Bool.and_eq_true, decide_eq_true_eq] at ha
  simp only [Range.contains, Bool.and_eq_false_iff, decide_eq_false_iff_not]
  omega

/-- No range of the table has a blank. -/
def Blankless (ranges : List Range) : Bool := ranges.all fun r => blankRanges.all r.apart

theorem blankless_ofList {s : List Char} (h : Blankless (rangesOf.go addRange [] none 0 s) = true) :
    Blankless (rangesOf (String.ofList s)) = true := by
  rwa [rangesOf_ofList]

theorem blankless_intercalate {row : String} {rows : List String}
    (h : ∀ r ∈ row :: rows, Blankless (rangesOf r) = true) :
    Blankless (rangesOf (" ".intercalate (row :: rows))) = true := by
  rw [rangesOf_intercalate, Blankless, List.all_flatMap, List.all_eq_true]
  exact h

theorem wordRanges_blankless : Blankless wordRanges = true := by
  refine blankless_intercalate ?_
  repeat refine List.forall_mem_cons.mpr ⟨blankless_ofList (by decide +kernel), ?_⟩
  simp

theorem isBlank_iff {c : Char} :
    isBlank c = true ↔ ∃ b ∈ blankRanges, b.contains c.toNat = true := by
  rw [isBlank, inRanges, List.any_eq_true]

/-- The blanks of the first 128 characters stand before all letters and digits. -/
theorem isAsciiWord_of_lt {c : Char} (h : c.toNat < 48) :
    (isAsciiAlphanumeric c || c == '_') = false := by
  have hne : c ≠ '_' := by
    rintro rfl
    exact absurd h (by decide)
  have hle : ∀ d : Char, 48 ≤ d.toNat → ¬ d ≤ c := by
    intro d hd hdc
    rw [Char.le_def, UInt32.le_iff_toNat_le] at hdc
    exact absurd (Nat.le_trans hd hdc) (Nat.not_le.mpr h)
  simp [isAsciiAlphanumeric, isAsciiLetter, isAsciiLower, isAsciiUpper, isAsciiDigit,
    hle 'a' (by decide), hle 'A' (by decide), hle '0' (by decide), hne]

theorem isWord_of_isBlank {c : Char} (h : isBlank c = true) : isWord c = false := by
  rw [isWord]
  obtain ⟨b, hb, hcb⟩ := isBlank_iff.mp h
  split
  · next hc =>
    refine isAsciiWord_of_lt ?_
    simp only [blankRanges, List.mem_cons, List.not_mem_nil, or_false] at hb
    rcases hb with rfl | rfl | rfl | rfl | rfl | rfl | rfl | rfl | rfl | rfl <;>
      simp [Range.contains] at hcb <;> omega
  · rw [inRanges, List.any_eq_false]
    intro r hr hcr
    have hapart := List.all_eq_true.mp (List.all_eq_true.mp wordRanges_blankless r hr) b hb
    rw [Range.not_contains_of_apart hapart hcr] at hcb
    exact Bool.false_ne_true hcb

end EmailTemplate.Text
