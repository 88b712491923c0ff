import EmailTemplate.Proofs.Toml.Reading
import Mathlib.Data.List.Nodup

/-! Laying one value over another is a union of tables that goes down to any depth, in which the upper
side wins. Tables are compared by what stands under their keys, as no key stands twice in one. -/

namespace EmailTemplate.Json

variable {α : Type} {key : String} {members members' : List (String × α)}

theorem lookup?_eq_none_iff : lookup? key members = none ↔ key ∉ members.map Prod.fst := by
  induction members with
  | nil => simp [lookup?]
  | cons m rest ih =>
    rw [lookup?, List.map_cons, List.mem_cons, not_or]
    by_cases hk : m.1 = key
    · simp [hk]
    · rw [if_neg hk, ih]
      simp [Ne.symm hk]

theorem RisingKeys.mem_iff (h : RisingKeys members) {m : String × α} :
    m ∈ members ↔ lookup? m.1 members = some m.2 :=
  ⟨lookup?_of_mem h.nodup, mem_of_lookup?⟩

/-- Members with rising keys are known by what stands under each key. -/
theorem RisingKeys.ext (h : RisingKeys members) (h' : RisingKeys members')
    (hsame : ∀ key, lookup? key members = lookup? key members') : members = members' := by
  have hmem : ∀ m, m ∈ members ↔ m ∈ members' := by
    intro m
    rw [h.mem_iff, h'.mem_iff, hsame]
  have hperm : members.Perm members' :=
    (List.perm_ext_iff_of_nodup (List.Nodup.of_map _ h.nodup) (List.Nodup.of_map _ h'.nodup)).mpr hmem
  refine hperm.eq_of_pairwise (fun m n _ _ hmn hnm => ?_) h h'
  exact absurd hnm hmn.asymm

end EmailTemplate.Json

namespace EmailTemplate.Toml.Value

open Json (lookup? insertMember RisingKeys)

/-- Induction over values that goes down from a table to what stands under its keys. -/
theorem tableInduction {P : Value → Prop} (flat : ∀ v, (∀ members, v ≠ table members) → P v)
    (tables : ∀ members, (∀ key v, lookup? key members = some v → P v) → P (table members))
    (v : Value) : P v := by
  match v with
  | table members =>
    refine tables members fun key v hv => ?_
    have hmem : (key, v) ∈ members := Json.mem_of_lookup? hv
    have hsmaller : sizeOf v < sizeOf members := by
      have hlt := List.sizeOf_lt_of_mem hmem
      simp only [Prod.mk.sizeOf_spec] at hlt
      omega
    exact tableInduction flat tables v
  | string _ | integer _ | float _ | boolean _ | datetime _ | array _ => exact flat _ (by simp)
termination_by sizeOf v
decreasing_by
  simp only [table.sizeOf_spec]
  omega

/-! ### One step down -/

section Members

variable {base layer : List (String × Value)}

theorem risingKeys_overlayMembers (h : RisingKeys base) : RisingKeys (overlayMembers base layer) := by
  induction layer generalizing base with
  | nil => exact h
  | cons m rest ih => exact ih h.insertMember

/-- What stands under a key: what one side alone has, or the upper value laid over the lower. -/
theorem lookup?_overlayMembers (hlayer : (layer.map Prod.fst).Nodup) (key : String) :
    lookup? key (overlayMembers base layer) =
      Option.merge overlay (lookup? key base) (lookup? key layer) := by
  induction layer generalizing base with
  | nil =>
    rw [overlayMembers]
    cases lookup? key base <;> rfl
  | cons m rest ih =>
    obtain ⟨k, v⟩ := m
    rw [List.map_cons, List.nodup_cons] at hlayer
    have hstep : lookup? key (overlayMembers base ((k, v) :: rest)) = Option.merge overlay
        (lookup? key (insertMember k (joined base k v) base)) (lookup? key rest) := ih hlayer.2
    rw [hstep, Json.lookup?_insertMember, lookup?]
    by_cases hk : k = key
    · subst hk
      have hrest : lookup? k rest = none := Json.lookup?_eq_none_iff.mpr hlayer.1
      rw [hrest, if_pos rfl, if_pos rfl, joined]
      cases lookup? k base <;> rfl
    · rw [if_neg hk, if_neg hk]

end Members

theorem overlay_not_table {v : Value} (h : ∀ layer, v ≠ table layer) (b : Value) :
    overlay b v = v := by
  cases v with
  | table layer => exact absurd rfl (h layer)
  | _ => rfl

theorem rising_table_iff {members : List (String × Value)} : (table members).Rising ↔
    RisingKeys members ∧ ∀ key v, lookup? key members = some v → v.Rising := by
  refine and_congr_right fun hkeys => membersRising_iff.trans ?_
  refine ⟨fun h key v hv => h (key, v) (Json.mem_of_lookup? hv), fun h m hm => ?_⟩
  exact h m.1 m.2 (Json.lookup?_of_mem hkeys.nodup hm)

/-! ### All the way down -/

theorem Rising.overlay {b o : Value} (hb : b.Rising) (ho : o.Rising) : (overlay b o).Rising := by
  induction o using tableInduction generalizing b with
  | flat o hflat =>
    rw [overlay_not_table hflat]
    exact ho
  | tables layer ih =>
    cases b with
    | table base =>
      rw [rising_table_iff] at hb ho
      refine rising_table_iff.mpr ⟨risingKeys_overlayMembers hb.1, fun key v hv => ?_⟩
      rw [lookup?_overlayMembers ho.1.nodup, Option.merge_eq_some_iff] at hv
      rcases hv with ⟨hlower, -⟩ | ⟨-, hupper⟩ | ⟨lower, upper, hlower, hupper, rfl⟩
      · exact hb.2 key v hlower
      · exact ho.2 key v hupper
      · exact ih key upper hupper (hb.2 key lower hlower) (ho.2 key upper hupper)
    | _ => exact ho

theorem overlay_self {v : Value} (h : v.Rising) : overlay v v = v := by
  induction v using tableInduction with
  | flat v hflat => exact overlay_not_table hflat v
  | tables members ih =>
    rw [rising_table_iff] at h
    refine congrArg table ((risingKeys_overlayMembers h.1).ext h.1 fun key => ?_)
    rw [lookup?_overlayMembers h.1.nodup]
    cases hv : lookup? key members with
    | none => rfl
    | some v => exact congrArg some (ih key v hv (h.2 key v hv))

theorem overlay_overlay {b o : Value} (hb : b.Rising) (ho : o.Rising) :
    overlay (overlay b o) o = overlay b o := by
  induction o using tableInduction generalizing b with
  | flat o hflat => rw [overlay_not_table hflat, overlay_not_table hflat]
  | tables layer ih =>
    cases b with
    | table base =>
      rw [rising_table_iff] at hb
      have hlayer := rising_table_iff.mp ho
      have hkeys : RisingKeys (overlayMembers base layer) := risingKeys_overlayMembers hb.1
      refine congrArg table ((risingKeys_overlayMembers hkeys).ext hkeys fun key => ?_)
      rw [lookup?_overlayMembers hlayer.1.nodup, lookup?_overlayMembers hlayer.1.nodup]
      cases hlower : lookup? key base with
      | none =>
        cases hupper : lookup? key layer with
        | none => rfl
        | some upper => exact congrArg some (overlay_self (hlayer.2 key upper hupper))
      | some lower =>
        cases hupper : lookup? key layer with
        | none => rfl
        | some upper =>
          have hdeep := ih key upper hupper (hb.2 key lower hlower) (hlayer.2 key upper hupper)
          exact congrArg some hdeep
    | _ => exact overlay_self ho

/-! ### The union -/

/-- The members of two tables as one: every key of either side and no other, with the upper value laid
over the lower one where both sides have the key. -/
structure IsUnion (lower upper members : List (String × Value)) : Prop where
  rising : RisingKeys members
  keys (key : String) :
    key ∈ members.map Prod.fst ↔ key ∈ lower.map Prod.fst ∨ key ∈ upper.map Prod.fst
  below {key : String} {v : Value} (hlower : lookup? key lower = some v)
    (hupper : lookup? key upper = none) : lookup? key members = some v
  above {key : String} {v : Value} (hlower : lookup? key lower = none)
    (hupper : lookup? key upper = some v) : lookup? key members = some v
  both {key : String} {v w : Value} (hlower : lookup? key lower = some v)
    (hupper : lookup? key upper = some w) : lookup? key members = some (overlay v w)

theorem isUnion_overlayMembers {lower upper : List (String × Value)} (hlower : RisingKeys lower)
    (hupper : RisingKeys upper) : IsUnion lower upper (overlayMembers lower upper) where
  rising := risingKeys_overlayMembers hlower
  keys key := by
    rw [← not_iff_not, not_or, ← Json.lookup?_eq_none_iff, ← Json.lookup?_eq_none_iff,
      ← Json.lookup?_eq_none_iff, lookup?_overlayMembers hupper.nodup, Option.merge_eq_none_iff]
  below hl hu := by rw [lookup?_overlayMembers hupper.nodup, hl, hu]; rfl
  above hl hu := by rw [lookup?_overlayMembers hupper.nodup, hl, hu]; rfl
  both hl hu := by rw [lookup?_overlayMembers hupper.nodup, hl, hu]; rfl

/-- Laying over is a union that goes down to any depth and in which the upper side wins: tables are
joined key by key, and whatever is no table above or below gives way to what is laid over it. A value
laid over itself, an empty table laid over a table, and a value laid over a second time change nothing. -/
theorem overlay_union {b o : Value} (hb : b.Rising) (ho : o.Rising) :
    (overlay b o).Rising ∧
      (∀ lower upper, b = table lower → o = table upper →
        ∃ members, overlay b o = table members ∧ IsUnion lower upper members) ∧
      ((∀ lower upper, ¬ (b = table lower ∧ o = table upper)) → overlay b o = o) ∧
      overlay b b = b ∧ (∀ members, b = table members → overlay b (table []) = b) ∧
      overlay (overlay b o) o = overlay b o := by
  refine ⟨hb.overlay ho, ?_, fun hflat => ?_, overlay_self hb, ?_, overlay_overlay hb ho⟩
  · rintro lower upper rfl rfl
    exact ⟨_, rfl, isUnion_overlayMembers hb.1 ho.1⟩
  · by_cases h : ∃ lower, b = table lower
    · obtain ⟨lower, rfl⟩ := h
      exact overlay_not_table (fun upper ho => hflat lower upper ⟨rfl, ho⟩) _
    · exact overlay_of_not_table (fun lower hb => h ⟨lower, hb⟩) o
  · rintro members rfl
    rfl

/-- Settings of which the sample above changes one option of a table and replaces another table. -/
def lowerSample : List (String × Value) :=
  [("adapt", table [("cta_strategy", string "auto"), ("preheader_fallback", boolean true)]),
    ("limits", table [("max_input_bytes", integer 9)])]

def upperSample : List (String × Value) :=
  [("adapt", table [("cta_strategy", string "all")]), ("limits", integer 3), ("theme", array [])]

theorem overlay_union_sample :
    (table lowerSample).Rising ∧ (table upperSample).Rising ∧
      ∃ members, IsUnion lowerSample upperSample members ∧
        members = [("adapt", table [("cta_strategy", string "all"),
          ("preheader_fallback", boolean true)]), ("limits", integer 3), ("theme", array [])] ∧
        overlay (table lowerSample) (table upperSample) = table members ∧
        overlay (table members) (table upperSample) = table members := by
  have hlower : (table lowerSample).Rising := by
    simp only [Rising, membersRising, lowerSample]
    decide
  have hupper : (table upperSample).Rising := by
    simp only [Rising, membersRising, itemsRising, upperSample]
    decide
  obtain ⟨-, hunion, -, -, -, htwice⟩ := overlay_union hlower hupper
  obtain ⟨members, hmembers, hunion⟩ := hunion _ _ rfl rfl
  rw [hmembers] at htwice
  exact ⟨hlower, hupper, members, hunion, (table.inj hmembers).symm, hmembers, htwice⟩

end EmailTemplate.Toml.Value
