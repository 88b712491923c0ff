import EmailTemplate.Proofs.Text.Replace
import Mathlib.Data.Nat.Find
import Mathlib.Logic.Relation

/-! Regions of a text: an opener with a name, and what stands behind it up to the nearest closer of
that name. A text is rid of its regions either in one scan or in place, with a cursor, and both
come to the same. -/

namespace EmailTemplate.Text

/-! ### The first occurrence of a literal -/

/-- The text before and after the first occurrence of a literal. -/
structure FirstSplit (find s before rest : List Char) : Prop where
  split : s = before ++ (find ++ rest)
  first : ∀ before' rest', s = before' ++ (find ++ rest') → before.length ≤ before'.length

theorem FirstSplit.passes {find s before rest : List Char} (h : FirstSplit find s before rest) :
    Passes find before (find ++ rest) := by
  rintro v w rfl hw ⟨t, ht⟩
  have hle := h.first v t (by rw [h.split, ht, List.append_assoc])
  have hpos := List.length_pos_iff.mpr hw
  rw [List.length_append] at hle
  omega

theorem FirstSplit.splitFirst? {find s before rest : List Char} (h : FirstSplit find s before rest) :
    splitFirst? find s = some (before, rest) := by
  have hhere : Text.splitFirst? find (find ++ rest) = some ([], rest) := by
    cases find with
    | nil => cases rest <;> rfl
    | cons c find => exact splitFirst?_append (List.cons_ne_nil c find) rest
  rw [h.split, splitFirst?_of_passes h.passes, hhere, Option.map_some, List.append_nil]

theorem FirstSplit.exists_of_infix {find s : List Char} (h : find <:+: s) :
    ∃ before rest, FirstSplit find s before rest := by
  classical
  have hsome : ∃ n before rest, s = before ++ (find ++ rest) ∧ before.length = n := by
    obtain ⟨before, rest, heq⟩ := h
    exact ⟨before.length, before, rest, by rw [← heq, List.append_assoc], rfl⟩
  obtain ⟨before, rest, hsplit, hlength⟩ := Nat.find_spec hsome
  refine ⟨before, rest, hsplit, fun before' rest' hsplit' => ?_⟩
  rw [hlength]
  exact Nat.find_min' hsome ⟨before', rest', hsplit', rfl⟩

/-! ### Regions -/

/-- Words that open a region of some name, the closer of a name, and what a region gives way to: a
part that is done with, and a part that is looked at again together with what follows. -/
structure Region where
  opener : List Char → List Char → Prop
  closer : List Char → List Char
  put : List Char → List Char → List Char × List Char
  opener_ne_nil : ∀ {word name}, opener word name → word ≠ []
  put_shrinks : ∀ name body, (put name body).2.length ≤ body.length

/-- An opener inside a text. -/
structure Opening where
  before : List Char
  word : List Char
  name : List Char
  rest : List Char

namespace Region

variable {R : Region} {s r : List Char} {o : Opening}

def Opens (R : Region) (s : List Char) (o : Opening) : Prop :=
  s = o.before ++ (o.word ++ o.rest) ∧ R.opener o.word o.name

/-- The leftmost opener of a text. -/
def First (R : Region) (s : List Char) (o : Opening) : Prop :=
  R.Opens s o ∧ ∀ o', R.Opens s o' → o.before.length ≤ o'.before.length

theorem exists_first (h : R.Opens s o) : ∃ o', R.First s o' := by
  classical
  have hsome : ∃ n o', R.Opens s o' ∧ o'.before.length = n := ⟨_, o, h, rfl⟩
  obtain ⟨o', hopens, hlength⟩ := Nat.find_spec hsome
  refine ⟨o', hopens, fun other hother => ?_⟩
  rw [hlength]
  exact Nat.find_min' hsome ⟨other, hother, rfl⟩

theorem First.length_lt (h : R.First s o) : o.rest.length < s.length := by
  have hpos := List.length_pos_iff.mpr (R.opener_ne_nil h.1.2)
  rw [h.1.1, List.length_append, List.length_append]
  omega

theorem First.put_length_lt (h : R.First s o) {body tail : List Char}
    (hbody : FirstSplit (R.closer o.name) o.rest body tail) :
    ((R.put o.name body).2 ++ tail).length < s.length := by
  have hrest := h.length_lt
  have hput := R.put_shrinks o.name body
  rw [hbody.split, List.length_append, List.length_append] at hrest
  rw [List.length_append]
  omega

section Reading

variable {read : List Char → Option (List Char × List Char)}
  (hread : ∀ {s name rest}, read s = some (name, rest) →
    ∃ word, R.opener word name ∧ s = word ++ rest)
include hread

/-- What recognises nothing but openers recognises nothing before the leftmost one. -/
theorem First.idle (h : R.First s o) : Idle read o.before (o.word ++ o.rest) := by
  intro v w hvw hw
  rw [Option.eq_none_iff_forall_ne_some]
  rintro ⟨name, rest⟩ hat
  obtain ⟨word, hopener, heq⟩ := hread hat
  have hopens : R.Opens s ⟨v, word, name, rest⟩ :=
    ⟨by rw [h.1.1, hvw, List.append_assoc, heq], hopener⟩
  have hle : o.before.length ≤ v.length := h.2 _ hopens
  have hpos := List.length_pos_iff.mpr hw
  rw [hvw, List.length_append] at hle
  omega

theorem idle_of_not_opens (h : ∀ o, ¬ R.Opens s o) : Idle read s [] := by
  intro v w hvw _
  rw [Option.eq_none_iff_forall_ne_some]
  rintro ⟨name, rest⟩ hat
  obtain ⟨word, hopener, heq⟩ := hread hat
  rw [List.append_nil] at heq
  exact h ⟨v, word, name, rest⟩ ⟨by rw [hvw, heq], hopener⟩

end Reading

/-! ### One scan -/

/-- What scanning a text from left to right leaves: an opener without a closer stays, and the scan
goes on behind it; a region gives way to what is put for it. -/
inductive Scanned (R : Region) : List Char → List Char → Prop
  | clear {s : List Char} (h : ∀ o, ¬ R.Opens s o) : R.Scanned s s
  | lone {s r : List Char} {o : Opening} (h : R.First s o) (hno : ¬ R.closer o.name <:+: o.rest)
      (hr : R.Scanned o.rest r) : R.Scanned s (o.before ++ (o.word ++ r))
  | region {s r body tail : List Char} {o : Opening} (h : R.First s o)
      (hbody : FirstSplit (R.closer o.name) o.rest body tail)
      (hr : R.Scanned ((R.put o.name body).2 ++ tail) r) :
      R.Scanned s (o.before ++ ((R.put o.name body).1 ++ r))

/-- The three equations of a scan, for a function. -/
structure Solves (R : Region) (f : List Char → List Char) : Prop where
  clear : ∀ {s}, (∀ o, ¬ R.Opens s o) → f s = s
  lone : ∀ {s o}, R.First s o → ¬ R.closer o.name <:+: o.rest →
    f s = o.before ++ (o.word ++ f o.rest)
  region : ∀ {s o body tail}, R.First s o → FirstSplit (R.closer o.name) o.rest body tail →
    f s = o.before ++ ((R.put o.name body).1 ++ f ((R.put o.name body).2 ++ tail))

variable {f : List Char → List Char}

theorem Solves.eq_of_scanned (hf : R.Solves f) (h : R.Scanned s r) : r = f s := by
  induction h with
  | clear h => exact (hf.clear h).symm
  | lone h hno _ ih => rw [hf.lone h hno, ih]
  | region h hbody _ ih => rw [hf.region h hbody, ih]

theorem Solves.scanned (hf : R.Solves f) (s : List Char) : R.Scanned s (f s) := by
  induction hn : s.length using Nat.strongRecOn generalizing s with
  | ind n ih =>
    by_cases hopens : ∃ o, R.Opens s o
    · obtain ⟨o, h⟩ := exists_first hopens.choose_spec
      by_cases hcloses : R.closer o.name <:+: o.rest
      · obtain ⟨body, tail, hbody⟩ := FirstSplit.exists_of_infix hcloses
        rw [hf.region h hbody]
        exact .region h hbody (ih _ (hn ▸ h.put_length_lt hbody) _ rfl)
      · rw [hf.lone h hcloses]
        exact .lone h hcloses (ih _ (hn ▸ h.length_lt) _ rfl)
    · have hclear : ∀ o, ¬ R.Opens s o := not_exists.mp hopens
      rw [hf.clear hclear]
      exact .clear hclear

theorem Solves.scanned_iff (hf : R.Solves f) : R.Scanned s r ↔ r = f s :=
  ⟨hf.eq_of_scanned, fun h => h ▸ hf.scanned s⟩

end Region

/-! ### Editing in place -/

/-- A text and the place from where it is looked at. -/
structure Editing where
  text : List Char
  cursor : Nat

namespace Editing

/-- What is not looked at again. -/
def done (e : Editing) : List Char := e.text.take e.cursor

def ahead (e : Editing) : List Char := e.text.drop e.cursor

theorem done_append_ahead (e : Editing) : e.done ++ e.ahead = e.text := List.take_append_drop _ _

theorem length_done {e : Editing} (h : e.ahead ≠ []) : e.done.length = e.cursor := by
  have hlt : e.cursor < e.text.length := by
    rw [← not_le]
    exact fun hle => h (List.drop_eq_nil_of_le hle)
  exact List.length_take_of_le hlt.le

theorem parts_of_append {e : Editing} {front back : List Char} (htext : e.text = front ++ back)
    (hcursor : e.cursor = front.length) : e.done = front ∧ e.ahead = back := by
  rw [done, ahead, htext]
  exact ⟨List.take_left' hcursor.symm, List.drop_left' hcursor.symm⟩

end Editing

namespace Region

variable {R : Region} {e e' : Editing}

/-- One turn: the cursor goes behind the leftmost opener ahead if that has no closer; else the region
is replaced in the text, and the cursor goes behind what is done with. -/
inductive Turn (R : Region) : Editing → Editing → Prop
  | pass {e : Editing} {o : Opening} (h : R.First e.ahead o)
      (hno : ¬ R.closer o.name <:+: o.rest) :
      R.Turn e ⟨e.text, e.cursor + o.before.length + o.word.length⟩
  | replace {e : Editing} {o : Opening} {body tail : List Char} (h : R.First e.ahead o)
      (hbody : FirstSplit (R.closer o.name) o.rest body tail) :
      R.Turn e
        ⟨e.text.take (e.cursor + o.before.length) ++
            ((R.put o.name body).1 ++ (R.put o.name body).2) ++
            e.text.drop (e.cursor + o.before.length + o.word.length + body.length +
              (R.closer o.name).length),
          e.cursor + o.before.length + (R.put o.name body).1.length⟩

/-- A text comes of another by turns until none is left. -/
def EditedInPlace (R : Region) (t r : List Char) : Prop :=
  ∃ e, Relation.ReflTransGen R.Turn ⟨t, 0⟩ e ∧ (∀ e', ¬ R.Turn e e') ∧ e.text = r

/-- What a turn does to the two parts of the text. -/
theorem Turn.parts (h : R.Turn e e') : ∃ o, R.First e.ahead o ∧
    ((¬ R.closer o.name <:+: o.rest ∧ e'.done = e.done ++ (o.before ++ o.word) ∧ e'.ahead = o.rest) ∨
      ∃ body tail, FirstSplit (R.closer o.name) o.rest body tail ∧
        e'.done = e.done ++ (o.before ++ (R.put o.name body).1) ∧
        e'.ahead = (R.put o.name body).2 ++ tail) := by
  have hlength : ∀ o, R.First e.ahead o → e.done.length = e.cursor := by
    intro o h
    refine Editing.length_done fun hnil => ?_
    have hlt := h.length_lt
    simp [hnil] at hlt
  cases h with
  | @pass o h hno =>
    have hcursor := hlength o h
    have htext : e.text = e.done ++ (o.before ++ o.word) ++ o.rest := by
      rw [← e.done_append_ahead, h.1.1]
      simp only [List.append_assoc]
    have hplace : e.cursor + o.before.length + o.word.length =
        (e.done ++ (o.before ++ o.word)).length := by
      simp only [List.length_append]
      omega
    exact ⟨o, h, .inl ⟨hno, Editing.parts_of_append htext hplace⟩⟩
  | @replace o body tail h hbody =>
    have hcursor := hlength o h
    have htext : e.text = e.done ++ o.before ++
        ((o.word ++ (body ++ R.closer o.name)) ++ tail) := by
      rw [← e.done_append_ahead, h.1.1, hbody.split]
      simp only [List.append_assoc]
    have hstart : e.cursor + o.before.length = (e.done ++ o.before).length := by
      rw [List.length_append]
      omega
    have hstop : e.cursor + o.before.length + o.word.length + body.length +
        (R.closer o.name).length =
          (e.done ++ o.before ++ (o.word ++ (body ++ R.closer o.name))).length := by
      simp only [List.length_append]
      omega
    have htake : e.text.take (e.cursor + o.before.length) = e.done ++ o.before := by
      rw [htext, List.take_left' hstart.symm]
    have hdrop : e.text.drop (e.cursor + o.before.length + o.word.length + body.length +
        (R.closer o.name).length) = tail := by
      rw [htext, ← List.append_assoc, List.drop_left' hstop.symm]
    refine ⟨o, h, .inr ⟨body, tail, hbody, Editing.parts_of_append ?_ ?_⟩⟩
    · simp only [htake, hdrop, List.append_assoc]
    · simp only [List.length_append]
      omega

/-- What lies ahead gets shorter with every turn, though the text may get longer. -/
theorem Turn.length_lt (h : R.Turn e e') : e'.ahead.length < e.ahead.length := by
  obtain ⟨o, hfirst, ⟨-, -, hahead⟩ | ⟨body, tail, hbody, -, hahead⟩⟩ := h.parts
  · rw [hahead]
    exact hfirst.length_lt
  · rw [hahead]
    exact hfirst.put_length_lt hbody

theorem wellFounded_turn (R : Region) : WellFounded fun e' e => R.Turn e e' :=
  Subrelation.wf (fun h => Turn.length_lt h) (measure fun e : Editing => e.ahead.length).wf

theorem exists_turn (h : R.First e.ahead o) : ∃ e', R.Turn e e' := by
  by_cases hcloses : R.closer o.name <:+: o.rest
  · obtain ⟨body, tail, hbody⟩ := FirstSplit.exists_of_infix hcloses
    exact ⟨_, .replace h hbody⟩
  · exact ⟨_, .pass h hcloses⟩

theorem exists_last (e : Editing) :
    ∃ e', Relation.ReflTransGen R.Turn e e' ∧ ∀ e'', ¬ R.Turn e' e'' := by
  induction e using R.wellFounded_turn.induction with
  | _ e ih =>
    by_cases hturn : ∃ e', R.Turn e e'
    · obtain ⟨e', hturn⟩ := hturn
      obtain ⟨last, hruns, hlast⟩ := ih e' hturn
      exact ⟨last, .head hturn hruns, hlast⟩
    · exact ⟨e, .refl, not_exists.mp hturn⟩

section Solved

variable {f : List Char → List Char} (hf : R.Solves f)
include hf

/-- A turn changes nothing of what the text will come to. -/
theorem Solves.turn (h : R.Turn e e') : e'.done ++ f e'.ahead = e.done ++ f e.ahead := by
  obtain ⟨o, hfirst, ⟨hno, hdone, hahead⟩ | ⟨body, tail, hbody, hdone, hahead⟩⟩ := h.parts
  · rw [hdone, hahead, hf.lone hfirst hno]
    simp only [List.append_assoc]
  · rw [hdone, hahead, hf.region hfirst hbody]
    simp only [List.append_assoc]

theorem Solves.turns (h : Relation.ReflTransGen R.Turn e e') :
    e'.done ++ f e'.ahead = e.done ++ f e.ahead := by
  induction h with
  | refl => rfl
  | tail _ hturn ih => rw [hf.turn hturn, ih]

theorem Solves.text_of_last (h : ∀ e', ¬ R.Turn e e') : e.done ++ f e.ahead = e.text := by
  have hclear : ∀ o, ¬ R.Opens e.ahead o := by
    intro o hopens
    obtain ⟨o', hfirst⟩ := exists_first hopens
    obtain ⟨e', hturn⟩ := exists_turn hfirst
    exact h e' hturn
  rw [hf.clear hclear, Editing.done_append_ahead]

theorem Solves.editedInPlace_iff {t r : List Char} : R.EditedInPlace t r ↔ r = f t := by
  have hresult : ∀ e, Relation.ReflTransGen R.Turn ⟨t, 0⟩ e → (∀ e', ¬ R.Turn e e') →
      e.text = f t := by
    intro e hruns hlast
    rw [← hf.text_of_last hlast, hf.turns hruns]
    rfl
  constructor
  · rintro ⟨e, hruns, hlast, rfl⟩
    exact hresult e hruns hlast
  · rintro rfl
    obtain ⟨e, hruns, hlast⟩ := exists_last (R := R) ⟨t, 0⟩
    exact ⟨e, hruns, hlast, hresult e hruns hlast⟩

end Solved

end Region

end EmailTemplate.Text
