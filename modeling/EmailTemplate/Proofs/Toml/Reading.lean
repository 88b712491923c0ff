import EmailTemplate.Proofs.Toml.Overlay
import EmailTemplate.Toml.Document

/-! The keys of every table that is read from a file rise, however headers and dotted keys build
it up. -/

namespace EmailTemplate.Json

theorem map_insertMember {α β : Type} (f : α → β) (key : String) (v : α)
    (members : List (String × α)) :
    (insertMember key v members).map (fun m => (m.1, f m.2)) =
      insertMember key (f v) (members.map fun m => (m.1, f m.2)) := by
  induction members with
  | nil => rfl
  | cons m rest ih =>
    simp only [insertMember, List.map_cons]
    split
    · rfl
    · split
      · rfl
      · rw [List.map_cons, ih]

theorem lookup?_map {α β : Type} (f : α → β) (key : String) (members : List (String × α)) :
    lookup? key (members.map fun m => (m.1, f m.2)) = (lookup? key members).map f := by
  induction members with
  | nil => rfl
  | cons m rest ih =>
    simp only [lookup?, List.map_cons]
    split
    · rfl
    · exact ih

end EmailTemplate.Json

namespace EmailTemplate.Toml

open Json (lookup? insertMember RisingKeys)

/-! ### Finished tables -/

theorem Value.rising_table_insertMember {members : List (String × Value)} {v : Value} {key : String}
    (h : (Value.table members).Rising) (hv : v.Rising) :
    (Value.table (insertMember key v members)).Rising := by
  refine ⟨h.1.insertMember, Value.membersRising_iff.mpr fun m hm => ?_⟩
  rcases Json.mem_insertMember hm with rfl | hm
  · exact hv
  · exact Value.membersRising_iff.mp h.2 m hm

theorem Value.Rising.of_lookup? {members : List (String × Value)} {v : Value} {key : String}
    (h : (Value.table members).Rising) (hv : lookup? key members = some v) : v.Rising :=
  Value.membersRising_iff.mp h.2 (key, v) (Json.mem_of_lookup? hv)

theorem Value.itemsRising_iff {items : List Value} :
    Value.itemsRising items ↔ ∀ v ∈ items, v.Rising := by
  induction items with
  | nil => simp [Value.itemsRising]
  | cons v rest ih => simp [Value.itemsRising, ih]

theorem Value.rising_empty : (Value.table []).Rising := ⟨List.Pairwise.nil, trivial⟩

/-! ### Tables that grow -/

theorem closeMembers_eq_map (members : Members) :
    closeMembers members = members.map fun m => (m.1, m.2.close) := by
  induction members with
  | nil => rfl
  | cons m rest ih => rw [closeMembers, ih, List.map_cons]

theorem closeTables_eq_map (tables : List Members) :
    closeTables tables = tables.map fun members => .table (closeMembers members) := by
  induction tables with
  | nil => rfl
  | cons members rest ih => rw [closeTables, ih, List.map_cons]

namespace Members

/-- The keys rise in the table that these members will be. -/
def Rising (members : Members) : Prop := (Value.table (closeMembers members)).Rising

variable {m m' t : Members} {key name : String} {v : Value} {mark : Mark} {path : List String}

theorem Rising.nil : Rising [] := Value.rising_empty

theorem Rising.insert {node : Node} (h : m.Rising) (hnode : node.close.Rising) :
    Rising (insertMember name node m) := by
  have hinsert : (Value.table (insertMember name node.close (closeMembers m))).Rising :=
    Value.rising_table_insertMember h hnode
  rwa [closeMembers_eq_map, ← Json.map_insertMember, ← closeMembers_eq_map] at hinsert

theorem Rising.node {node : Node} (h : m.Rising) (hnode : lookup? name m = some node) :
    node.close.Rising := by
  have hclosed : lookup? name (closeMembers m) = some node.close := by
    rw [closeMembers_eq_map, Json.lookup?_map, hnode, Option.map_some]
  exact Value.Rising.of_lookup? h hclosed

theorem rising_tables_iff {earlier : List Members} {last : Members} :
    (Node.tables earlier last).close.Rising ↔ (∀ t ∈ earlier, Rising t) ∧ last.Rising := by
  rw [Node.close, Value.Rising, Value.itemsRising_iff, closeTables_eq_map,
    List.forall_mem_append, List.forall_mem_map, List.forall_mem_singleton]
  rfl

theorem Rising.put? (h : m.Rising) (hv : v.Rising) (hput : m.put? key v = some m') : m'.Rising := by
  rw [Members.put?] at hput
  split at hput
  · cases hput
  · obtain rfl := Option.some.inj hput
    exact h.insert hv

theorem Rising.putAt? (hv : v.Rising) (h : m.Rising) (hput : putAt? key v path m = some m') :
    m'.Rising := by
  induction path generalizing m m' with
  | nil => exact h.put? hv hput
  | cons name path ih =>
    rw [Members.putAt?] at hput
    cases hnode : lookup? name m with
    | none =>
      rw [hnode] at hput
      obtain ⟨t, ht, rfl⟩ := Option.map_eq_some_iff.mp hput
      exact h.insert (ih .nil ht)
    | some node =>
      have hrising := h.node hnode
      rw [hnode] at hput
      cases node with
      | value w => cases hput
      | table mark t =>
        simp only at hput
        split at hput
        · cases hput
        · obtain ⟨t', ht, rfl⟩ := Option.map_eq_some_iff.mp hput
          exact h.insert (ih hrising ht)
      | tables earlier last =>
        simp only at hput
        split at hput
        · cases hput
        · obtain ⟨t', ht, rfl⟩ := Option.map_eq_some_iff.mp hput
          have htables := rising_tables_iff.mp hrising
          exact h.insert (rising_tables_iff.mpr ⟨htables.1, ih htables.2 ht⟩)

theorem Rising.within {change : Members → Option Members}
    (hchange : ∀ t t', Rising t → change t = some t' → Rising t') (h : m.Rising)
    (hwithin : within change path m = some m') : m'.Rising := by
  induction path generalizing m m' with
  | nil => exact hchange m m' h hwithin
  | cons name path ih =>
    rw [Members.within] at hwithin
    cases hnode : lookup? name m with
    | none =>
      rw [hnode] at hwithin
      obtain ⟨t, ht, rfl⟩ := Option.map_eq_some_iff.mp hwithin
      exact h.insert (ih .nil ht)
    | some node =>
      have hrising := h.node hnode
      rw [hnode] at hwithin
      cases node with
      | value w => cases hwithin
      | table mark t =>
        obtain ⟨t', ht, rfl⟩ := Option.map_eq_some_iff.mp hwithin
        exact h.insert (ih hrising ht)
      | tables earlier last =>
        obtain ⟨t', ht, rfl⟩ := Option.map_eq_some_iff.mp hwithin
        have htables := rising_tables_iff.mp hrising
        exact h.insert (rising_tables_iff.mpr ⟨htables.1, ih htables.2 ht⟩)

theorem Rising.open? (h : m.Rising) (hopen : open? key m = some m') : m'.Rising := by
  rw [Members.open?] at hopen
  split at hopen
  · obtain rfl := Option.some.inj hopen
    exact h.insert Value.rising_empty
  · next t hnode =>
    obtain rfl := Option.some.inj hopen
    have ht : Rising t := h.node hnode
    exact h.insert ht
  · cases hopen

theorem Rising.openNext? (h : m.Rising) (hopen : openNext? key m = some m') : m'.Rising := by
  rw [Members.openNext?] at hopen
  split at hopen
  · obtain rfl := Option.some.inj hopen
    exact h.insert (rising_tables_iff.mpr ⟨List.forall_mem_nil _, .nil⟩)
  · next earlier last hnode =>
    obtain rfl := Option.some.inj hopen
    obtain ⟨hearlier, hlast⟩ := rising_tables_iff.mp (h.node hnode)
    have hall : ∀ t ∈ earlier ++ [last], Rising t :=
      List.forall_mem_append.mpr ⟨hearlier, List.forall_mem_singleton.mpr hlast⟩
    exact h.insert (rising_tables_iff.mpr ⟨hall, .nil⟩)
  · cases hopen

end Members

/-! ### Pairs and lines one after another -/

theorem foldlM_keeps {α β : Type} {step : β → α → Option β} {P : β → Prop} {l : List α}
    (hstep : ∀ a ∈ l, ∀ b b', P b → step b a = some b' → P b') {b b' : β} (h : P b)
    (hfold : l.foldlM step b = some b') : P b' := by
  induction l generalizing b with
  | nil =>
    obtain rfl := Option.some.inj hfold
    exact h
  | cons a l ih =>
    rw [List.forall_mem_cons] at hstep
    rw [List.foldlM_cons] at hfold
    obtain ⟨next, hnext, hrest⟩ := Option.bind_eq_some_iff.mp hfold
    exact ih hstep.2 (hstep.1 b next h hnext) hrest

theorem rising_tableOfPairs? {pairs : List (List String × String × Value)} {v : Value}
    (h : ∀ p ∈ pairs, p.2.2.Rising) (hv : tableOfPairs? pairs = some v) : v.Rising := by
  obtain ⟨members, hfold, rfl⟩ := Option.map_eq_some_iff.mp hv
  have hstep : ∀ p ∈ pairs, ∀ m m' : Members, m.Rising → Members.putAt? p.2.1 p.2.2 p.1 m = some m' →
      m'.Rising := fun p hp m m' hm hput => hm.putAt? (h p hp) hput
  exact foldlM_keeps hstep Members.Rising.nil hfold

/-- The value of a pair is as it should be. -/
def Line.Rising : Line → Prop
  | .pair _ _ v => v.Rising
  | _ => True

theorem Building.rising_take? {b b' : Building} {line : Line} (hline : line.Rising)
    (h : b.members.Rising) (htake : b.take? line = some b') : b'.members.Rising := by
  cases line with
  | pair path key v =>
    obtain ⟨m, hm, rfl⟩ := Option.map_eq_some_iff.mp htake
    exact h.within (fun _ _ ht hput => ht.putAt? hline hput) hm
  | header path key =>
    obtain ⟨m, hm, rfl⟩ := Option.map_eq_some_iff.mp htake
    exact h.within (fun _ _ ht hopen => ht.open? hopen) hm
  | nextHeader path key =>
    obtain ⟨m, hm, rfl⟩ := Option.map_eq_some_iff.mp htake
    exact h.within (fun _ _ ht hopen => ht.openNext? hopen) hm

theorem rising_tableOfLines? {lines : List Line} {v : Value} (h : ∀ l ∈ lines, l.Rising)
    (hv : tableOfLines? lines = some v) : v.Rising := by
  obtain ⟨b, hfold, rfl⟩ := Option.map_eq_some_iff.mp hv
  have hstep : ∀ l ∈ lines, ∀ b b' : Building, b.members.Rising → b.take? l = some b' →
      b'.members.Rising := fun l hl b b' hb htake => b.rising_take? (h l hl) hb htake
  exact foldlM_keeps hstep (P := fun b : Building => b.members.Rising) Members.Rising.nil hfold

/-! ### Values -/

/-- Every value that the reader finds is as it should be. -/
def ReadsRising (value : Reader Value) : Prop := ∀ s v rest, value s = some (v, rest) → v.Rising

theorem rising_integerOf? {negative : Bool} {n : Nat} {v : Value}
    (h : integerOf? negative n = some v) : v.Rising := by
  rw [integerOf?] at h
  split at h <;> split at h <;> cases h <;> trivial

theorem rising_floatOf? {negative : Bool} {digits : List Char} {exponent : Int} {v : Value}
    (h : floatOf? negative digits exponent = some v) : v.Rising := by
  simp only [floatOf?] at h
  repeat' split at h
  all_goals cases h
  all_goals trivial

theorem readsRising_based? (base : Nat) : ReadsRising (based? base) := by
  intro s v rest h
  obtain ⟨⟨digits, s⟩, -, h⟩ := Option.bind_eq_some_iff.mp h
  obtain ⟨w, hw, h⟩ := Option.bind_eq_some_iff.mp h
  cases h
  exact rising_integerOf? hw

theorem readsRising_decimal? (negative : Bool) : ReadsRising (decimal? negative) := by
  intro s v rest h
  obtain ⟨⟨whole, s⟩, -, h⟩ := Option.bind_eq_some_iff.mp h
  simp only at h
  split at h
  · obtain ⟨⟨places, s⟩, -, h⟩ := Option.bind_eq_some_iff.mp h
    simp only at h
    split at h
    · obtain ⟨⟨e, rest⟩, -, h⟩ := Option.bind_eq_some_iff.mp h
      obtain ⟨w, hw, h⟩ := Option.bind_eq_some_iff.mp h
      cases h
      exact rising_floatOf? hw
    · obtain ⟨w, hw, h⟩ := Option.bind_eq_some_iff.mp h
      cases h
      exact rising_floatOf? hw
  · split at h
    · obtain ⟨⟨e, rest⟩, -, h⟩ := Option.bind_eq_some_iff.mp h
      obtain ⟨w, hw, h⟩ := Option.bind_eq_some_iff.mp h
      cases h
      exact rising_floatOf? hw
    · obtain ⟨w, hw, h⟩ := Option.bind_eq_some_iff.mp h
      cases h
      exact rising_integerOf? hw

theorem readsRising_number? : ReadsRising number? := by
  intro s v rest h
  rw [number?.eq_def] at h
  split at h
  · exact readsRising_based? 16 _ v rest h
  · exact readsRising_based? 8 _ v rest h
  · exact readsRising_based? 2 _ v rest h
  · simp only at h
    split at h
    · cases h
      trivial
    · cases h
      trivial
    · exact readsRising_decimal? _ _ v rest h

theorem readsRising_scalar? : ReadsRising scalar? := by
  intro s v rest h
  rw [scalar?.eq_def] at h
  split at h
  · cases h
  · next c t =>
    split at h
    · obtain ⟨⟨text, rest⟩, -, h⟩ := Option.map_eq_some_iff.mp h
      cases h
      trivial
    · split at h
      · obtain ⟨⟨t, rest⟩, -, h⟩ := Option.map_eq_some_iff.mp h
        cases h
        trivial
      · split at h
        · obtain ⟨rest, -, h⟩ := Option.map_eq_some_iff.mp h
          cases h
          trivial
        · split at h
          · obtain ⟨rest, -, h⟩ := Option.map_eq_some_iff.mp h
            cases h
            trivial
          · exact readsRising_number? _ v _ h

section Containers

variable {value : Reader Value}

theorem rising_items? (hvalue : ReadsRising value) {fuel : Nat} {s rest : List Char}
    {items : List Value} (h : items? value fuel s = some (items, rest)) :
    ∀ v ∈ items, v.Rising := by
  induction fuel generalizing s items rest with
  | zero => cases h
  | succ fuel ih =>
    rw [items?] at h
    split at h
    · cases h
      exact List.forall_mem_nil _
    · obtain ⟨⟨v, t⟩, hv, h⟩ := Option.bind_eq_some_iff.mp h
      have hrising := hvalue _ v t hv
      simp only at h
      split at h
      · obtain ⟨⟨more, u⟩, hmore, h⟩ := Option.bind_eq_some_iff.mp h
        cases h
        exact List.forall_mem_cons.mpr ⟨hrising, ih hmore⟩
      · cases h
        exact List.forall_mem_singleton.mpr hrising
      · cases h

theorem rising_pair? (hvalue : ReadsRising value) {s rest : List Char}
    {pair : List String × String × Value} (h : pair? value s = some (pair, rest)) :
    pair.2.2.Rising := by
  obtain ⟨⟨⟨path, key⟩, t⟩, -, h⟩ := Option.bind_eq_some_iff.mp h
  obtain ⟨u, -, h⟩ := Option.bind_eq_some_iff.mp h
  obtain ⟨⟨v, w⟩, hv, h⟩ := Option.bind_eq_some_iff.mp h
  cases h
  exact hvalue _ v _ hv

theorem rising_pairs? (hvalue : ReadsRising value) {fuel : Nat} {s rest : List Char}
    {pairs : List (List String × String × Value)} (h : pairs? value fuel s = some (pairs, rest)) :
    ∀ p ∈ pairs, p.2.2.Rising := by
  induction fuel generalizing s pairs rest with
  | zero => cases h
  | succ fuel ih =>
    obtain ⟨⟨pair, t⟩, hpair, h⟩ := Option.bind_eq_some_iff.mp h
    have hrising := rising_pair? hvalue hpair
    simp only at h
    split at h
    · obtain ⟨⟨more, u⟩, hmore, h⟩ := Option.bind_eq_some_iff.mp h
      cases h
      exact List.forall_mem_cons.mpr ⟨hrising, ih hmore⟩
    · cases h
      exact List.forall_mem_singleton.mpr hrising
    · cases h

theorem readsRising_inlineTable? (hvalue : ReadsRising value) :
    ReadsRising (inlineTable? value) := by
  intro s v rest h
  rw [inlineTable?] at h
  split at h
  · cases h
    exact Value.rising_empty
  · obtain ⟨⟨pairs, t⟩, hpairs, h⟩ := Option.bind_eq_some_iff.mp h
    obtain ⟨w, hw, h⟩ := Option.bind_eq_some_iff.mp h
    cases h
    exact rising_tableOfPairs? (rising_pairs? hvalue hpairs) hw

end Containers

theorem readsRising_value? (depth : Nat) : ReadsRising (value? depth) := by
  induction depth with
  | zero => exact readsRising_scalar?
  | succ depth ih =>
    intro s v rest h
    simp only [value?] at h
    split at h
    · obtain ⟨⟨items, t⟩, hitems, h⟩ := Option.map_eq_some_iff.mp h
      cases h
      exact Value.itemsRising_iff.mpr (rising_items? ih hitems)
    · exact readsRising_inlineTable? ih _ v rest h
    · exact readsRising_scalar? _ v rest h

/-! ### Files -/

theorem rising_line? {s rest : List Char} {line : Line} (h : line? s = some (line, rest)) :
    line.Rising := by
  rw [line?.eq_def] at h
  split at h
  · obtain ⟨⟨⟨path, key⟩, t⟩, -, h⟩ := Option.map_eq_some_iff.mp h
    cases h
    trivial
  · obtain ⟨⟨⟨path, key⟩, t⟩, -, h⟩ := Option.map_eq_some_iff.mp h
    cases h
    trivial
  · obtain ⟨⟨⟨path, key, v⟩, t⟩, hpair, h⟩ := Option.map_eq_some_iff.mp h
    cases h
    exact rising_pair? (readsRising_value? maxDepth) hpair

theorem rising_lines? {fuel : Nat} {s : List Char} {lines : List Line}
    (h : lines? fuel s = some lines) : ∀ l ∈ lines, l.Rising := by
  induction fuel generalizing s lines with
  | zero =>
    rw [lines?] at h
    split at h
    · cases h
      exact List.forall_mem_nil _
    · cases h
  | succ fuel ih =>
    rw [lines?] at h
    split at h
    · cases h
      exact List.forall_mem_nil _
    · obtain ⟨t, -, h⟩ := Option.bind_eq_some_iff.mp h
      exact ih h
    · obtain ⟨t, -, h⟩ := Option.bind_eq_some_iff.mp h
      exact ih h
    · obtain ⟨t, -, h⟩ := Option.bind_eq_some_iff.mp h
      exact ih h
    · obtain ⟨⟨line, t⟩, hline, h⟩ := Option.bind_eq_some_iff.mp h
      obtain ⟨u, -, h⟩ := Option.bind_eq_some_iff.mp h
      obtain ⟨more, hmore, h⟩ := Option.bind_eq_some_iff.mp h
      cases h
      exact List.forall_mem_cons.mpr ⟨rising_line? hline, ih hmore⟩

theorem exists_table_of_parse? {text : String} {v : Value} (h : parse? text = some v) :
    ∃ members, v = .table members := by
  obtain ⟨lines, -, htable⟩ := Option.bind_eq_some_iff.mp h
  obtain ⟨b, -, rfl⟩ := Option.map_eq_some_iff.mp htable
  exact ⟨closeMembers b.members, rfl⟩

theorem rising_parse? {text : String} {v : Value} (h : parse? text = some v) : v.Rising := by
  obtain ⟨lines, hlines, htable⟩ := Option.bind_eq_some_iff.mp h
  exact rising_tableOfLines? (rising_lines? hlines) htable

end EmailTemplate.Toml
