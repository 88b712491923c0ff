import EmailTemplate.Text.Pattern
import Mathlib.Tactic.Common

/-! What patterns read: a match is made of the characters that the parts of the pattern admit. -/

namespace EmailTemplate.Text

namespace Pattern

/-- Whatever the pattern reads, from whatever place, is as asked. -/
def Reads (p : Pattern) (q : List Char → Prop) : Prop :=
  ∀ place, ∀ e ∈ p place, ∃ u, place.rest = u ++ e.rest ∧ q u

variable {p p' : Pattern} {q q' r : List Char → Prop}

theorem reads_one {fits : Char → Bool} (h : ∀ c, fits c = true → q [c]) : (one fits).Reads q := by
  rintro ⟨before, rest⟩ e he
  cases rest with
  | nil => simp [one] at he
  | cons c rest =>
    rw [one] at he
    split at he
    · next hc =>
      obtain rfl := List.mem_singleton.mp he
      exact ⟨[c], rfl, h c hc⟩
    · simp at he

theorem Reads.andThen (hp : p.Reads q) (hp' : p'.Reads q') (h : ∀ u v, q u → q' v → r (u ++ v)) :
    (p.andThen p').Reads r := by
  intro place e he
  obtain ⟨middle, hmiddle, he⟩ := List.mem_flatMap.mp he
  obtain ⟨u, hu, hq⟩ := hp place middle hmiddle
  obtain ⟨v, hv, hq'⟩ := hp' middle e he
  exact ⟨u ++ v, by rw [hu, hv, List.append_assoc], h u v hq hq'⟩

theorem Reads.orElse (hp : p.Reads q) (hp' : p'.Reads q) : (p.orElse p').Reads q := by
  intro place e he
  rcases List.mem_append.mp he with he | he
  · exact hp place e he
  · exact hp' place e he

theorem reads_nothing (hnil : q []) : Pattern.Reads (fun place => [place]) q := by
  intro place e he
  obtain rfl := List.mem_singleton.mp he
  exact ⟨[], rfl, hnil⟩

theorem reads_boundary (hnil : q []) : boundary.Reads q := by
  intro place e he
  rw [boundary] at he
  split at he
  · exact reads_nothing hnil place e he
  · simp at he

/-! ### Repetition -/

section Repetition

variable (hnil : q []) (happend : ∀ u v, q u → q v → q (u ++ v))
include hnil

theorem Reads.optional (hp : p.Reads q) : (optional p).Reads q := hp.orElse (reads_nothing hnil)

include happend

theorem Reads.times (hp : p.Reads q) (n : Nat) : (p.times n).Reads q := by
  induction n with
  | zero => exact reads_nothing hnil
  | succ n ih => exact hp.andThen ih happend

theorem Reads.upTo (hp : p.Reads q) (n : Nat) : (p.upTo n).Reads q := by
  induction n with
  | zero => exact reads_nothing hnil
  | succ n ih => exact (hp.andThen ih happend).optional hnil

theorem Reads.between (hp : p.Reads q) (low high : Nat) : (p.between low high).Reads q :=
  (hp.times hnil happend low).andThen (hp.upTo hnil happend (high - low)) happend

theorem reads_many {fits : Char → Bool} (h : ∀ c, fits c = true → q [c]) :
    (many fits).Reads q := by
  have hfrom : ∀ (rest u start : List Char) (before : Option Char) (done : List Place),
      start = u ++ rest → q u → (∀ e ∈ done, ∃ v, start = v ++ e.rest ∧ q v) →
        ∀ e ∈ manyFrom fits done before rest, ∃ v, start = v ++ e.rest ∧ q v := by
    intro rest
    induction rest with
    | nil =>
      intro u start before done hstart hu hdone
      exact List.forall_mem_cons.mpr ⟨⟨u, hstart, hu⟩, hdone⟩
    | cons c rest ih =>
      intro u start before done hstart hu hdone
      have hhere : ∀ e ∈ (⟨before, c :: rest⟩ : Place) :: done, ∃ v, start = v ++ e.rest ∧ q v :=
        List.forall_mem_cons.mpr ⟨⟨u, hstart, hu⟩, hdone⟩
      rw [manyFrom]
      split
      · next hc =>
        exact ih (u ++ [c]) start _ _ (by simp [hstart]) (happend u [c] hu (h c hc)) hhere
      · exact hhere
  intro place
  exact hfrom place.rest [] place.rest place.before [] rfl hnil (by simp)

theorem reads_atLeastOne {fits : Char → Bool} (h : ∀ c, fits c = true → q [c]) :
    (atLeastOne fits).Reads q :=
  (reads_one h).andThen (reads_many hnil happend h) happend

theorem reads_wholeRun {fits : Char → Bool} (h : ∀ c, fits c = true → q [c]) :
    (wholeRun fits).Reads q := by
  refine (reads_one h).andThen (fun place e he => ?_) happend
  obtain rfl := List.mem_singleton.mp he
  have hrun : ∀ (rest : List Char) (before : Option Char),
      ∃ u, rest = u ++ (pastRun fits before rest).rest ∧ q u := by
    intro rest
    induction rest with
    | nil => exact fun before => ⟨[], rfl, hnil⟩
    | cons c rest ih =>
      intro before
      rw [pastRun]
      split
      · next hc =>
        obtain ⟨u, hu, hq⟩ := ih (some c)
        exact ⟨c :: u, by rw [List.cons_append, ← hu], happend [c] u (h c hc) hq⟩
      · exact ⟨[], rfl, hnil⟩
  exact hrun place.rest place.before

theorem reads_inOrder {ps : List Pattern} (h : ∀ p ∈ ps, Pattern.Reads p q) :
    (inOrder ps).Reads q := by
  induction ps with
  | nil => exact reads_nothing hnil
  | cons p ps ih =>
    exact (h p (by simp)).andThen (ih fun p' hp' => h p' (by simp [hp'])) happend

end Repetition

/-! ### Matches -/

theorem Reads.matchAt? (hp : p.Reads q) {place : Place} {found : List Char}
    (h : p.matchAt? place = some found) : q found := by
  obtain ⟨e, he, rfl⟩ := Option.map_eq_some_iff.mp h
  obtain ⟨u, hu, hq⟩ := hp place e (List.mem_of_mem_head? he)
  simpa [hu] using hq

theorem Reads.find? (hp : p.Reads q) {s found : List Char} (h : p.find? s = some found) :
    q found := by
  have hfrom : ∀ (s : List Char) (before : Option Char),
      p.findFrom? before s = some found → q found := by
    intro s
    induction s with
    | nil => exact fun before h => hp.matchAt? h
    | cons c s ih =>
      intro before h
      rw [findFrom?] at h
      split at h
      · next found' hfound =>
        obtain rfl : found' = found := Option.some.inj h
        exact hp.matchAt? hfound
      · exact ih (some c) h
  exact hfrom s none h

/-- Leftmost matches that do not overlap, in order, past `skip` characters. -/
def findAllFrom (p : Pattern) : Nat → Option Char → List Char → List (List Char)
  | _, _, [] => []
  | skip + 1, _, c :: rest => p.findAllFrom skip (some c) rest
  | 0, before, c :: rest =>
    match p.matchAt? ⟨before, c :: rest⟩ with
    | some found => found :: p.findAllFrom (found.length - 1) (some c) rest
    | none => p.findAllFrom 0 (some c) rest

/-- The first match in a text, the first one behind it, and so on, of a pattern that matches no empty
text. -/
def findAll (p : Pattern) (s : List Char) : List (List Char) := p.findAllFrom 0 none s

theorem Reads.findAll (hp : p.Reads q) {s found : List Char} (h : found ∈ p.findAll s) :
    q found := by
  have hfrom : ∀ (s : List Char) (skip : Nat) (before : Option Char),
      found ∈ p.findAllFrom skip before s → q found := by
    intro s
    induction s with
    | nil =>
      intro skip before h
      rw [findAllFrom] at h
      exact absurd h List.not_mem_nil
    | cons c s ih =>
      intro skip before h
      cases skip with
      | succ skip => exact ih skip (some c) h
      | zero =>
        rw [findAllFrom] at h
        split at h
        · next first hfirst =>
          rcases List.mem_cons.mp h with rfl | h
          · exact hp.matchAt? hfirst
          · exact ih _ (some c) h
        · exact ih 0 (some c) h
  exact hfrom s 0 none h

end Pattern

end EmailTemplate.Text
