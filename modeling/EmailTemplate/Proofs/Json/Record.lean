import EmailTemplate.Json.Decode
import Mathlib.Data.List.Perm.Basic

/-! Records that are written as objects, read without regard to which fault comes first. Each member
fills in a field that must still be open, so the order of the members does not matter. -/

namespace EmailTemplate.Json

theorem toOption_bind {ε β γ : Type} (x : Except ε β) (f : β → Except ε γ) :
    (x >>= f).toOption = x.toOption.bind fun b => (f b).toOption := by
  cases x <;> rfl

theorem toOption_map_once {β γ : Type} (put : Option β → γ) (slot : Option β) (value : Decoded β) :
    (put <$> once slot value).toOption =
      if slot.isSome then none else value.toOption.map fun v => put (some v) := by
  rw [once]
  split
  · rfl
  · cases value <;> rfl

namespace Record

variable {ρ α ι : Type} {r : Record ρ α}

/-- What a member makes of the part read so far, if anything. -/
def next (r : Record ρ α) (part : Option ρ) (m : Option String × Draft) : Option ρ :=
  part.bind fun p => m.1.bind fun key => (r.member p key m.2).toOption

theorem toOption_members (p : ρ) (members : List (Option String × Draft)) :
    (r.members p members).toOption = members.foldl r.next (some p) := by
  induction members generalizing p with
  | nil => rfl
  | cons m rest ih =>
    obtain ⟨_ | key, d⟩ := m
    · rw [List.foldl_cons]
      exact (List.foldl_fixed' (fun _ => rfl) rest).symm
    · rw [members, toOption_bind, List.foldl_cons]
      cases h : (r.member p key d).toOption with
      | none =>
        simp only [next, Option.bind_some, h, Option.bind_none]
        exact (List.foldl_fixed' (fun _ => rfl) rest).symm
      | some q => simp [next, h, ih]

theorem toOption_decode (origin : Origin) (members : List (Option String × Draft)) :
    (r.decode origin (.object members none)).toOption =
      (members.foldl r.next (some r.start)).bind fun p => (r.finish p).toOption := by
  rw [decode, toOption_bind, toOption_members]
  rfl

/-- The fields of a record: which of them a key names, the slot that each has in a part, how its
content is read, and how it is put into its slot. -/
structure Fields (r : Record ρ α) (ι : Type) where
  field? : String → Option ι
  Content : ι → Type
  slot : ∀ i, ρ → Option (Content i)
  read : ∀ i, Draft → Decoded (Content i)
  put : ∀ i, Content i → ρ → ρ
  toOption_member : ∀ p key d, (r.member p key d).toOption = (field? key).bind fun i =>
    if (slot i p).isSome then none else (read i d).toOption.map (put i · p)
  slot_start : ∀ i, slot i r.start = none
  slot_put : ∀ i v p, slot i (put i v p) = some v
  slot_put_of_ne : ∀ i j v p, i ≠ j → slot j (put i v p) = slot j p
  put_comm : ∀ i j v w p, i ≠ j → put j w (put i v p) = put i v (put j w p)

namespace Fields

variable (F : Fields r ι)

def Taken (i : ι) (p : ρ) : Prop := (F.slot i p).isSome

/-- Fills in a field that is still open. -/
def fill (i : ι) (p : ρ) (d : Draft) : Option ρ :=
  if (F.slot i p).isSome then none else (F.read i d).toOption.map (F.put i · p)

theorem fill_eq_none {i : ι} {p : ρ} (d : Draft) (h : F.Taken i p) : F.fill i p d = none :=
  if_pos h

theorem fill_eq_map {i : ι} {p : ρ} (d : Draft) (h : ¬F.Taken i p) :
    F.fill i p d = (F.read i d).toOption.map (F.put i · p) :=
  if_neg h

theorem taken_put (i j : ι) (v : F.Content i) (p : ρ) :
    F.Taken j (F.put i v p) ↔ i = j ∨ F.Taken j p := by
  by_cases hij : i = j
  · subst hij
    simp [Taken, F.slot_put]
  · simp [Taken, F.slot_put_of_ne i j v p hij, hij]

theorem exists_put {i : ι} {p q : ρ} {d : Draft} (h : F.fill i p d = some q) :
    ∃ v, (F.read i d).toOption = some v ∧ q = F.put i v p := by
  rw [fill] at h
  split at h
  · simp at h
  · obtain ⟨v, hv, hq⟩ := Option.map_eq_some_iff.mp h
    exact ⟨v, hv, hq.symm⟩

theorem taken_fill {i j : ι} {p q : ρ} {d : Draft} (h : F.fill i p d = some q) :
    F.Taken j q ↔ i = j ∨ F.Taken j p := by
  obtain ⟨v, -, rfl⟩ := F.exists_put h
  exact F.taken_put i j v p

theorem fill_twice (i : ι) (p : ρ) (d e : Draft) :
    ((F.fill i p d).bind fun q => F.fill i q e) = none := by
  refine Option.bind_eq_none_iff.mpr fun q hq => ?_
  exact F.fill_eq_none e ((F.taken_fill hq).mpr (.inl rfl))

theorem fill_comm (i j : ι) (p : ρ) (d e : Draft) :
    ((F.fill i p d).bind fun q => F.fill j q e) = (F.fill j p e).bind fun q => F.fill i q d := by
  by_cases hij : i = j
  · subst hij
    rw [fill_twice, fill_twice]
  · have hi := fun v => F.slot_put_of_ne i j v p hij
    have hj := fun w => F.slot_put_of_ne j i w p (Ne.symm hij)
    have hput := fun v w => F.put_comm i j v w p hij
    unfold fill
    cases (F.read i d).toOption <;> cases (F.read j e).toOption <;>
      by_cases hslot : (F.slot i p).isSome <;> by_cases hslot' : (F.slot j p).isSome <;>
      simp [hslot, hslot', hi, hj, hput]

/-- The field that a member is for. -/
def field (m : Option String × Draft) : Option ι := m.1.bind F.field?

theorem next_some (p : ρ) (m : Option String × Draft) :
    r.next (some p) m = (F.field m).bind fun i => F.fill i p m.2 := by
  obtain ⟨_ | key, d⟩ := m
  · rfl
  · exact F.toOption_member p key d

theorem foldl_next_none (members : List (Option String × Draft)) :
    members.foldl r.next none = none :=
  List.foldl_fixed' (fun _ => rfl) members

include F in
theorem next_comm (part : Option ρ) (m n : Option String × Draft) :
    r.next (r.next part m) n = r.next (r.next part n) m := by
  obtain _ | p := part
  · rfl
  have hnext : ∀ m n, r.next (r.next (some p) m) n =
      (F.field m).bind fun i => (F.field n).bind fun j =>
        (F.fill i p m.2).bind fun q => F.fill j q n.2 := by
    intro m n
    rw [F.next_some]
    cases F.field m with
    | none => rfl
    | some i =>
      simp only [Option.bind_some]
      cases hfill : F.fill i p m.2 with
      | none => cases F.field n <;> rfl
      | some q => exact F.next_some q n
  rw [hnext, hnext]
  cases F.field m with
  | none => cases F.field n <;> rfl
  | some i =>
    cases F.field n with
    | none => rfl
    | some j =>
      exact F.fill_comm i j p m.2 n.2

include F in
theorem foldl_perm {members others : List (Option String × Draft)} (h : members.Perm others)
    (part : Option ρ) : members.foldl r.next part = others.foldl r.next part :=
  have : RightCommutative r.next := ⟨F.next_comm⟩
  h.foldl_eq part

include F in
theorem toOption_decode_perm (origin : Origin) {members others : List (Option String × Draft)}
    (h : members.Perm others) : (r.decode origin (.object members none)).toOption =
      (r.decode origin (.object others none)).toOption := by
  rw [toOption_decode, toOption_decode, F.foldl_perm h]

theorem taken_next {p q : ρ} {m : Option String × Draft} (h : r.next (some p) m = some q) (j : ι) :
    F.Taken j q ↔ F.Taken j p ∨ F.field m = some j := by
  rw [F.next_some, Option.bind_eq_some_iff] at h
  obtain ⟨i, hi, hfill⟩ := h
  rw [F.taken_fill hfill, hi, Option.some.injEq, or_comm]

/-- What is taken after a run was taken before it or is what a member is for. -/
theorem taken_foldl {p q : ρ} {members : List (Option String × Draft)}
    (h : members.foldl r.next (some p) = some q) (j : ι) :
    F.Taken j q ↔ F.Taken j p ∨ ∃ m ∈ members, F.field m = some j := by
  induction members generalizing p with
  | nil =>
    obtain rfl := Option.some.inj h
    simp
  | cons m rest ih =>
    rw [List.foldl_cons] at h
    cases hn : r.next (some p) m with
    | none => simp [hn, foldl_next_none] at h
    | some p' =>
      rw [hn] at h
      rw [ih h, F.taken_next hn, List.exists_mem_cons_iff, or_assoc]

/-- Two members for one field are one too many. -/
theorem foldl_twice {members : List (Option String × Draft)} {m n : Option String × Draft} {i : ι}
    (hm : m ∈ members) (hn : n ∈ members) (hne : m ≠ n) (hi : F.field m = some i)
    (hj : F.field n = some i) (part : Option ρ) : members.foldl r.next part = none := by
  obtain _ | p := part
  · exact foldl_next_none members
  obtain ⟨s, t, rfl⟩ := List.append_of_mem hm
  have hn : n ∈ s ++ t := by simpa [Ne.symm hne] using hn
  obtain ⟨s', t', hst⟩ := List.append_of_mem hn
  have hrest : (s ++ t).Perm (n :: (s' ++ t')) := by
    rw [hst]
    exact List.perm_middle
  have hperm : (s ++ m :: t).Perm (m :: n :: (s' ++ t')) :=
    List.perm_middle.trans (hrest.cons m)
  rw [F.foldl_perm hperm, List.foldl_cons, List.foldl_cons]
  have hnone : r.next (r.next (some p) m) n = none := by
    cases hq : r.next (some p) m with
    | none => rfl
    | some q =>
      rw [F.next_some, hj]
      exact F.fill_eq_none n.2 ((F.taken_next hq i).mpr (.inr hi))
  rw [hnone, foldl_next_none]

theorem fill_congr {i : ι} (p : ρ) {d e : Draft}
    (h : (F.read i d).toOption = (F.read i e).toOption) : F.fill i p d = F.fill i p e := by
  rw [fill, fill, h]

/-- A record is the same if each of its members is read to the same content. -/
theorem toOption_decode_map {β : Type} (origin : Origin) {list : List β}
    {f g : β → Option String × Draft} (hkey : ∀ b ∈ list, (f b).1 = (g b).1)
    (hread : ∀ b ∈ list, ∀ i, F.field (g b) = some i →
      (F.read i (f b).2).toOption = (F.read i (g b).2).toOption) :
    (r.decode origin (.object (list.map f) none)).toOption =
      (r.decode origin (.object (list.map g) none)).toOption := by
  have hnext : ∀ part, ∀ b ∈ list, r.next part (f b) = r.next part (g b) := by
    intro part b hb
    obtain _ | p := part
    · rfl
    have hfield : F.field (f b) = F.field (g b) := by rw [field, field, hkey b hb]
    rw [F.next_some, F.next_some, hfield]
    exact Option.bind_congr fun i hi => F.fill_congr p (hread b hb i hi)
  rw [toOption_decode, toOption_decode, List.foldl_map, List.foldl_map,
    List.foldl_ext (fun part b => r.next part (f b)) _ (some r.start) hnext]

/-- A member whose content cannot be read spoils the record. -/
theorem toOption_decode_unread (origin : Origin) {members : List (Option String × Draft)}
    {m : Option String × Draft} {i : ι} (hm : m ∈ members) (hi : F.field m = some i)
    (hread : (F.read i m.2).toOption = none) :
    (r.decode origin (.object members none)).toOption = none := by
  obtain ⟨s, t, rfl⟩ := List.append_of_mem hm
  have hnone : ∀ part, r.next part m = none := by
    intro part
    obtain _ | p := part
    · rfl
    rw [F.next_some, hi, Option.bind_some, fill, hread]
    exact ite_self none
  rw [toOption_decode, List.foldl_append, List.foldl_cons, hnone, foldl_next_none]
  rfl

theorem toOption_decode_twice (origin : Origin) {members : List (Option String × Draft)}
    {m n : Option String × Draft} {i : ι} (hm : m ∈ members) (hn : n ∈ members) (hne : m ≠ n)
    (hi : F.field m = some i) (hj : F.field n = some i) :
    (r.decode origin (.object members none)).toOption = none := by
  rw [toOption_decode, F.foldl_twice hm hn hne hi hj]
  rfl

/-- A member that fills a field with what it holds anyway. -/
def Idle (m : Option String × Draft) : Prop :=
  ∃ i v, F.field m = some i ∧ (F.read i m.2).toOption = some v ∧
    ∀ p, F.slot i p = none → r.finish (F.put i v p) = r.finish p

theorem toOption_decode_cons_idle (origin : Origin) {members : List (Option String × Draft)}
    {m : Option String × Draft} (hm : F.Idle m) (hfresh : ∀ n ∈ members, F.field n ≠ F.field m) :
    (r.decode origin (.object (m :: members) none)).toOption =
      (r.decode origin (.object members none)).toOption := by
  obtain ⟨i, v, hi, hv, hfinish⟩ := hm
  rw [F.toOption_decode_perm origin (List.perm_append_singleton m members).symm,
    toOption_decode, toOption_decode, List.foldl_append, List.foldl_cons, List.foldl_nil]
  cases hp : members.foldl r.next (some r.start) with
  | none => rfl
  | some p =>
    have hopen : ¬F.Taken i p := by
      rw [F.taken_foldl hp]
      rintro (hstart | ⟨n, hn, hni⟩)
      · simp [Taken, F.slot_start] at hstart
      · exact hfresh n hn (hni.trans hi.symm)
    have hslot : F.slot i p = none := Option.not_isSome_iff_eq_none.mp hopen
    have hfill : F.fill i p m.2 = some (F.put i v p) := by
      rw [F.fill_eq_map _ hopen, hv]
      rfl
    rw [F.next_some, hi, Option.bind_some, hfill, Option.bind_some, Option.bind_some,
      hfinish p hslot]

theorem toOption_decode_append_idle (origin : Origin) {members idle : List (Option String × Draft)}
    (hidle : ∀ m ∈ idle, F.Idle m) (hdistinct : (idle.map F.field).Nodup)
    (hfresh : ∀ m ∈ idle, ∀ n ∈ members, F.field n ≠ F.field m) :
    (r.decode origin (.object (idle ++ members) none)).toOption =
      (r.decode origin (.object members none)).toOption := by
  induction idle with
  | nil => rfl
  | cons m rest ih =>
    rw [List.map_cons, List.nodup_cons] at hdistinct
    have hm : ∀ n ∈ rest ++ members, F.field n ≠ F.field m := by
      intro n hn
      rcases List.mem_append.mp hn with hn | hn
      · exact fun he => hdistinct.1 (he ▸ List.mem_map_of_mem hn)
      · exact hfresh m List.mem_cons_self n hn
    rw [List.cons_append, F.toOption_decode_cons_idle origin (hidle m List.mem_cons_self) hm]
    exact ih (fun n hn => hidle n (List.mem_cons_of_mem _ hn)) hdistinct.2
      fun n hn => hfresh n (List.mem_cons_of_mem _ hn)

/-- The fields of a record that has only one. -/
def ofOne {β : Type} {r : Record (Option β) α} (name : String) (read : Draft → Decoded β)
    (hstart : r.start = none)
    (hmember : ∀ p key d, r.member p key d =
      if key = name then once p (read d) else throw Fault.content) : r.Fields Unit where
  field? key := if key = name then some () else none
  Content _ := β
  slot _ p := p
  read _ := read
  put _ v _ := some v
  toOption_member p key d := by
    by_cases hkey : key = name
    · have honce := toOption_map_once id p (read d)
      rw [id_map] at honce
      simp only [hmember, if_pos hkey]
      exact honce
    · simp only [hmember, if_neg hkey]
      rfl
  slot_start _ := hstart
  slot_put _ _ _ := rfl
  slot_put_of_ne _ _ _ _ h := absurd rfl h
  put_comm _ _ _ _ _ h := absurd rfl h

end Fields

end Record

end EmailTemplate.Json
