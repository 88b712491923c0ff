import EmailTemplate.Proofs.Template.Data
import EmailTemplate.Toml.Value
import Mathlib.Data.String.Basic
import Mathlib.Data.List.Perm.Basic

/-! Laying one table over another. Up to their order the members are those of the upper table, each
laid over its namesake below, and those of the lower table that have no namesake above. -/

namespace EmailTemplate.Json

variable {α : Type} {key k : String} {v : α} {members : List (String × α)}

/-- The keys rise, so none stands twice. -/
def RisingKeys (members : List (String × α)) : Prop := members.Pairwise (·.1 < ·.1)

instance (members : List (String × α)) : Decidable (RisingKeys members) :=
  inferInstanceAs (Decidable (members.Pairwise (·.1 < ·.1)))

theorem RisingKeys.nodup (h : RisingKeys members) : (members.map Prod.fst).Nodup :=
  List.pairwise_map.mpr (h.imp fun hlt => hlt.ne)

theorem lookup?_of_mem {m : String × α} (h : (members.map Prod.fst).Nodup) (hm : m ∈ members) :
    lookup? m.1 members = some m.2 := by
  induction members with
  | nil => simp at hm
  | cons n rest ih =>
    rw [List.map_cons, List.nodup_cons] at h
    rw [lookup?]
    rcases List.mem_cons.mp hm with rfl | hm
    · simp
    · rw [if_neg, ih h.2 hm]
      rintro he
      exact h.1 (he ▸ List.mem_map_of_mem hm)

theorem lookup?_insertMember :
    lookup? k (insertMember key v members) = if key = k then some v else lookup? k members := by
  induction members with
  | nil => simp [insertMember, lookup?]
  | cons m rest ih =>
    rw [insertMember]
    split
    · simp [lookup?]
    · split
      · next he =>
        by_cases hk : key = k <;> simp [lookup?, ← he, hk]
      · next hne =>
        rw [lookup?, ih, lookup?]
        by_cases hk : key = k
        · subst hk
          simp [Ne.symm hne]
        · simp [hk]

theorem insertMember_perm (h : RisingKeys members) :
    (insertMember key v members).Perm ((key, v) :: members.filter (·.1 ≠ key)) := by
  induction members with
  | nil => simp [insertMember]
  | cons m rest ih =>
    rw [RisingKeys, List.pairwise_cons] at h
    rw [insertMember]
    split
    · next hlt =>
      have hkeep : ∀ n ∈ m :: rest, n.1 ≠ key := by
        intro n hn
        rcases List.mem_cons.mp hn with rfl | hn
        · exact hlt.ne'
        · exact (hlt.trans (h.1 n hn)).ne'
      rw [List.filter_eq_self.mpr (by simpa using hkeep)]
    · split
      · next he =>
        have hkeep : ∀ n ∈ rest, n.1 ≠ key := fun n hn => he ▸ (h.1 n hn).ne'
        rw [List.filter_cons_of_neg (by simp [he]),
          List.filter_eq_self.mpr (by simpa using hkeep)]
      · next hne =>
        rw [List.filter_cons_of_pos (by simpa using Ne.symm hne)]
        exact ((ih h.2).cons m).trans (List.Perm.swap _ _ _)

theorem RisingKeys.insertMember (h : RisingKeys members) :
    RisingKeys (insertMember key v members) := by
  induction members with
  | nil => simp [Json.insertMember, RisingKeys]
  | cons m rest ih =>
    have hm := List.pairwise_cons.mp h
    rw [Json.insertMember]
    split
    · next hlt =>
      refine List.pairwise_cons.mpr ⟨fun n hn => ?_, h⟩
      rcases List.mem_cons.mp hn with rfl | hn
      · exact hlt
      · exact hlt.trans (hm.1 n hn)
    · split
      · next he => exact List.pairwise_cons.mpr ⟨fun n hn => he ▸ hm.1 n hn, hm.2⟩
      · next hlt hne =>
        refine List.pairwise_cons.mpr ⟨fun n hn => ?_, ih hm.2⟩
        have hup : m.1 < key := lt_of_le_of_ne (not_lt.mp hlt) (Ne.symm hne)
        rcases List.mem_cons.mp ((insertMember_perm hm.2).subset hn) with rfl | hn
        · exact hup
        · exact hm.1 n (List.mem_of_mem_filter hn)

end EmailTemplate.Json

namespace EmailTemplate.Toml.Value

open Json (lookup? insertMember RisingKeys)

mutual

/-- The keys of every table in the value rise. -/
def Rising : Value → Prop
  | array items => itemsRising items
  | table members => RisingKeys members ∧ membersRising members
  | _ => True

def itemsRising : List Value → Prop
  | [] => True
  | v :: rest => v.Rising ∧ itemsRising rest

def membersRising : List (String × Value) → Prop
  | [] => True
  | (_, v) :: rest => v.Rising ∧ membersRising rest

end

theorem membersRising_iff {members : List (String × Value)} :
    membersRising members ↔ ∀ m ∈ members, m.2.Rising := by
  induction members with
  | nil => simp [membersRising]
  | cons m rest ih => simp [membersRising, ih]

/-- The value that stands under a key once a layer has put a value there. -/
def joined (base : List (String × Value)) (key : String) (v : Value) : Value :=
  match lookup? key base with
  | some b => overlay b v
  | none => v

theorem joined_insertMember {base : List (String × Value)} {key k : String} {v w : Value}
    (h : key ≠ k) : joined (insertMember key v base) k w = joined base k w := by
  simp [joined, Json.lookup?_insertMember, h]

theorem overlayMembers_perm {base layer : List (String × Value)} (hbase : RisingKeys base)
    (hlayer : (layer.map Prod.fst).Nodup) :
    (overlayMembers base layer).Perm (layer.map (fun m => (m.1, joined base m.1 m.2)) ++
      base.filter (·.1 ∉ layer.map Prod.fst)) := by
  induction layer generalizing base with
  | nil => simp [overlayMembers]
  | cons m rest ih =>
    obtain ⟨key, v⟩ := m
    rw [List.map_cons, List.nodup_cons] at hlayer
    have hrest : rest.map (fun m => (m.1, joined (insertMember key (joined base key v) base) m.1 m.2))
        = rest.map fun m => (m.1, joined base m.1 m.2) := by
      refine List.map_congr_left fun m hm => ?_
      have hk : key ≠ m.1 := fun he => hlayer.1 (List.mem_map.mpr ⟨m, hm, he.symm⟩)
      rw [joined_insertMember hk]
    have hleft : ((insertMember key (joined base key v) base).filter
        (·.1 ∉ rest.map Prod.fst)).Perm ((key, joined base key v) ::
          base.filter (·.1 ∉ ((key, v) :: rest).map Prod.fst)) := by
      refine ((Json.insertMember_perm hbase).filter _).trans ?_
      rw [List.filter_cons_of_pos (by simpa using hlayer.1), List.filter_filter]
      refine List.Perm.of_eq (congrArg _ (List.filter_congr fun m _ => ?_))
      by_cases hk : m.1 = key <;> simp [hk]
    have hrising : RisingKeys (insertMember key (joined base key v) base) := hbase.insertMember
    have hstep := ih hrising hlayer.2
    rw [hrest] at hstep
    exact hstep.trans ((hleft.append_left _).trans List.perm_middle)

/-- What is no table below is replaced as a whole. -/
theorem overlay_of_not_table {b : Value} (h : ∀ members, b ≠ table members) (v : Value) :
    overlay b v = v := by
  cases v with
  | table layer =>
    cases b with
    | table members => exact absurd rfl (h members)
    | _ => rfl
  | _ => rfl

theorem joined_of_not_table {base : List (String × Value)}
    (h : ∀ b ∈ base, ∀ members, b.2 ≠ table members) (key : String) (v : Value) :
    joined base key v = v := by
  rw [joined]
  split
  · next b hb => exact overlay_of_not_table (h _ (Json.mem_of_lookup? hb)) v
  · rfl

end EmailTemplate.Toml.Value
