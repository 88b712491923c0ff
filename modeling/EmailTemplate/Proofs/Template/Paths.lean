import EmailTemplate.Proofs.Text.Splitting
import EmailTemplate.Proofs.Toml.Overlay

/-! Values by their paths. Under keys without points each name that an object binds is that of one path
through objects, and bound to the text of what stands at its end. -/

namespace EmailTemplate

namespace Json

/-- What is found when one key after the other is looked up. -/
def Value.follow? (v : Value) : List String → Option Value
  | [] => some v
  | key :: path => (v.get? key).bind fun w => w.follow? path

def Value.isScalar : Value → Bool
  | .object _ | .array _ => false
  | _ => true

/-- A path through objects that ends at a value of its own. -/
def Value.Leaf (v : Value) (path : List String) (e : Value) : Prop :=
  v.follow? path = some e ∧ e.isScalar = true

/-- A key that can be told from the path around it. -/
def PlainKey (key : String) : Prop := key ≠ "" ∧ '.' ∉ key.toList

instance (key : String) : Decidable (PlainKey key) := inferInstanceAs (Decidable (_ ∧ _))

mutual

/-- No object that is reached through objects has a key twice. -/
def Value.Keyed : Value → Prop
  | .object members => (members.map Prod.fst).Nodup ∧ membersKeyed members
  | _ => True

def membersKeyed : List (String × Value) → Prop
  | [] => True
  | (_, v) :: rest => v.Keyed ∧ membersKeyed rest

end

mutual

/-- The keys of all objects that are reached through objects are plain. -/
def Value.PlainKeys : Value → Prop
  | .object members => membersPlain members
  | _ => True

def membersPlain : List (String × Value) → Prop
  | [] => True
  | (key, v) :: rest => PlainKey key ∧ v.PlainKeys ∧ membersPlain rest

end

mutual

instance decidableKeyed : (v : Value) → Decidable v.Keyed
  | .object members =>
    have := decidableMembersKeyed members
    inferInstanceAs (Decidable ((members.map Prod.fst).Nodup ∧ membersKeyed members))
  | .array _ | .null | .bool _ | .number _ | .string _ => isTrue trivial

instance decidableMembersKeyed : (members : List (String × Value)) → Decidable (membersKeyed members)
  | [] => isTrue trivial
  | (_, v) :: rest =>
    have := decidableKeyed v
    have := decidableMembersKeyed rest
    inferInstanceAs (Decidable (v.Keyed ∧ membersKeyed rest))

end

mutual

instance decidablePlainKeys : (v : Value) → Decidable v.PlainKeys
  | .object members => decidableMembersPlain members
  | .array _ | .null | .bool _ | .number _ | .string _ => isTrue trivial

instance decidableMembersPlain : (members : List (String × Value)) → Decidable (membersPlain members)
  | [] => isTrue trivial
  | (key, v) :: rest =>
    have := decidablePlainKeys v
    have := decidableMembersPlain rest
    inferInstanceAs (Decidable (PlainKey key ∧ v.PlainKeys ∧ membersPlain rest))

end

theorem membersKeyed_iff {members : List (String × Value)} :
    membersKeyed members ↔ ∀ m ∈ members, m.2.Keyed := by
  induction members with
  | nil => simp [membersKeyed]
  | cons m rest ih => simp [membersKeyed, ih]

theorem membersPlain_iff {members : List (String × Value)} :
    membersPlain members ↔ ∀ m ∈ members, PlainKey m.1 ∧ m.2.PlainKeys := by
  induction members with
  | nil => simp [membersPlain]
  | cons m rest ih => simp [membersPlain, ih, and_assoc]

theorem Value.follow?_append (v : Value) (path more : List String) :
    v.follow? (path ++ more) = (v.follow? path).bind fun w => w.follow? more := by
  induction path generalizing v with
  | nil => rfl
  | cons key path ih =>
    rw [List.cons_append, follow?, follow?]
    cases v.get? key with
    | none => rfl
    | some w => exact ih w

/-- Behind anything but an object nothing is found. -/
theorem Value.eq_nil_of_follow? {v w : Value} {path : List String} (hv : ∀ members, v ≠ .object members)
    (h : v.follow? path = some w) : path = [] := by
  cases path with
  | nil => rfl
  | cons key path =>
    cases v with
    | object members => exact absurd rfl (hv members)
    | _ => simp [follow?, get?] at h

theorem Value.PlainKeys.of_follow? {v w : Value} (hv : v.PlainKeys) {path : List String}
    (h : v.follow? path = some w) : ∀ key ∈ path, PlainKey key := by
  induction path generalizing v with
  | nil => simp
  | cons key path ih =>
    cases v with
    | object members =>
      rw [follow?, get?] at h
      obtain ⟨x, hx, hrest⟩ := Option.bind_eq_some_iff.mp h
      obtain ⟨hkey, hplain⟩ := membersPlain_iff.mp hv _ (mem_of_lookup? hx)
      exact List.forall_mem_cons.mpr ⟨hkey, ih hplain hrest⟩
    | _ => simp [follow?, get?] at h

theorem sortMembers_rising {α : Type} (members : List (String × α)) :
    RisingKeys (sortMembers members) :=
  List.foldlRecOn members _ List.Pairwise.nil fun _ h _ _ => h.insertMember

theorem mem_of_mem_sortMembers {α : Type} {members : List (String × α)} {m : String × α}
    (h : m ∈ sortMembers members) : m ∈ members := by
  suffices hsub : ∀ done : List (String × α), m ∈ members.foldl
      (fun done n => insertMember n.1 n.2 done) done → m ∈ done ∨ m ∈ members by
    simpa using hsub [] h
  clear h
  induction members with
  | nil => exact fun done hm => .inl hm
  | cons n rest ih =>
    intro done hm
    rcases ih _ hm with hm | hm
    · exact (mem_insertMember hm).elim (fun he => .inr (he ▸ List.mem_cons_self)) .inl
    · exact .inr (List.mem_cons_of_mem n hm)

theorem exists_of_bind_eq_ok {α β : Type} {x : Decoded α} {f : α → Decoded β} {b : β}
    (h : (x >>= f) = .ok b) : ∃ a, x = .ok a ∧ f a = .ok b := by
  cases x with
  | error fault => cases h
  | ok a => exact ⟨a, rfl, h⟩

theorem keyed_object_sortMembers {members : List (String × Value)} (h : ∀ m ∈ members, m.2.Keyed) :
    (Value.object (sortMembers members)).Keyed :=
  ⟨(sortMembers_rising members).nodup,
    membersKeyed_iff.mpr fun m hm => h m (mem_of_mem_sortMembers hm)⟩

mutual

/-- Data that was read has no key of an object twice. -/
theorem keyed_toValue? {depth : Nat} : ∀ {d : Draft} {v : Value}, d.toValue? depth = .ok v → v.Keyed
  | .null, v, h => by cases h; trivial
  | .bool _, v, h => by cases h; trivial
  | .number _, v, h => by cases h; trivial
  | .string _, v, h => by cases h; trivial
  | .array _ _, v, h => by
    rw [Draft.toValue?] at h
    split at h
    · cases h
    · obtain ⟨items, -, h⟩ := exists_of_bind_eq_ok h
      obtain ⟨-, -, h⟩ := exists_of_bind_eq_ok h
      cases h
      trivial
  | .object _ _, v, h => by
    rw [Draft.toValue?] at h
    split at h
    · cases h
    · obtain ⟨members, hmembers, h⟩ := exists_of_bind_eq_ok h
      obtain ⟨-, -, h⟩ := exists_of_bind_eq_ok h
      cases h
      exact keyed_object_sortMembers (keyed_memberValues hmembers)
  | .flawed _, v, h => by cases h
  | .broken _, v, h => by cases h

theorem keyed_memberValues {depth : Nat} : ∀ {drafts : List (Option String × Draft)}
    {members : List (String × Value)}, Draft.memberValues depth drafts = .ok members →
    ∀ m ∈ members, m.2.Keyed
  | [], members, h => by cases h; simp
  | (none, _) :: _, members, h => by cases h
  | (some key, d) :: rest, members, h => by
    rw [Draft.memberValues] at h
    obtain ⟨v, hv, h⟩ := exists_of_bind_eq_ok h
    obtain ⟨more, hmore, h⟩ := exists_of_bind_eq_ok h
    cases h
    exact List.forall_mem_cons.mpr ⟨keyed_toValue? hv, keyed_memberValues hmore⟩

end

theorem Value.Leaf.member {m : String × Value} {members : List (String × Value)} {e : Value}
    {path : List String} (h : m.2.Leaf path e) (hkeys : (members.map Prod.fst).Nodup)
    (hm : m ∈ members) : (Value.object members).Leaf (m.1 :: path) e := by
  refine ⟨?_, h.2⟩
  rw [follow?, get?, lookup?_of_mem hkeys hm]
  exact h.1

end Json

namespace Template

open Json Text

/-! ### Names of paths -/

def dotted (path : List String) : String := ".".intercalate path

theorem dotted_cons_cons (key next : String) (path : List String) :
    dotted (key :: next :: path) = key ++ "." ++ dotted (next :: path) := by
  rw [dotted, String.intercalate_cons_cons]
  rfl

theorem splitBy_dotted {key : String} {path : List String} (h : ∀ k ∈ key :: path, PlainKey k) :
    splitBy (· == '.') (dotted (key :: path)).toList = (key :: path).map String.toList := by
  have hpieces : ∀ k ∈ key :: path, splitBy (· == '.') k.toList = [k.toList] := by
    intro k hk
    refine splitBy_of_forall fun c hc => ?_
    simpa using fun he : c = '.' => (h k hk).2 (he ▸ hc)
  induction path generalizing key with
  | nil => simpa [dotted] using hpieces key List.mem_cons_self
  | cons next path ih =>
    have hrest := ih (fun k hk => h k (List.mem_cons_of_mem key hk))
      fun k hk => hpieces k (List.mem_cons_of_mem key hk)
    have htext : (dotted (key :: next :: path)).toList =
        key.toList ++ '.' :: (dotted (next :: path)).toList := by
      rw [dotted_cons_cons]
      simp
    rw [htext, splitBy_append rfl, hpieces key List.mem_cons_self, hrest]
    rfl

theorem dotted_ne_empty {key : String} {path : List String} (h : ∀ k ∈ key :: path, PlainKey k) :
    dotted (key :: path) ≠ "" := by
  intro he
  have hsplit := splitBy_dotted h
  rw [he] at hsplit
  have hkey : key.toList = [] := by simpa [splitBy] using (List.cons.inj hsplit).1.symm
  exact (h key List.mem_cons_self).1 (String.toList_eq_nil_iff.mp hkey)

/-- Whatever keys come behind a path, a path of the same name begins with it. -/
theorem prefix_of_dotted {path path' more : List String} (h : ∀ k ∈ path, PlainKey k)
    (h' : ∀ k ∈ path', PlainKey k) (he : dotted path' = dotted (path ++ more)) : path <+: path' := by
  cases path with
  | nil => exact List.nil_prefix
  | cons key path =>
    obtain ⟨pieces, hpieces⟩ : ∃ pieces, splitBy (· == '.') (dotted (key :: path ++ more)).toList =
        (key :: path).map String.toList ++ pieces := by
      cases more with
      | nil => exact ⟨[], by rw [List.append_nil, List.append_nil, splitBy_dotted h]⟩
      | cons next more =>
        refine ⟨splitBy (· == '.') (dotted (next :: more)).toList, ?_⟩
        rw [dotted, String.intercalate_append_of_ne_nil (List.cons_ne_nil key path)
          (List.cons_ne_nil next more), String.append_assoc, String.toList_append,
          String.toList_append]
        exact (splitBy_append rfl _ _).trans (congrArg (· ++ _) (splitBy_dotted h))
    rw [← he] at hpieces
    cases path' with
    | nil =>
      have hkey : key.toList = [] := by simpa [dotted, splitBy] using (List.cons.inj hpieces).1.symm
      exact absurd (String.toList_eq_nil_iff.mp hkey) (h key List.mem_cons_self).1
    | cons key' path' =>
      rw [splitBy_dotted h'] at hpieces
      obtain ⟨first, rest, hsplit, hfirst, -⟩ := List.map_eq_append_iff.mp hpieces
      rw [hsplit, List.map_injective_iff.mpr (fun _ _ => String.toList_injective) hfirst]
      exact List.prefix_append _ rest

theorem dotted_inj {path path' : List String} (h : ∀ k ∈ path, PlainKey k)
    (h' : ∀ k ∈ path', PlainKey k) (he : dotted path = dotted path') : path = path' :=
  have hprefix : path <+: path' := prefix_of_dotted h h' (by rw [List.append_nil, he])
  have hprefix' : path' <+: path := prefix_of_dotted h' h (by rw [List.append_nil, he])
  hprefix.eq_of_length_le hprefix'.length_le

theorem joinPath_dotted {above : List String} (h : ∀ k ∈ above, PlainKey k) (key : String) :
    joinPath (dotted above) key = dotted (above ++ [key]) := by
  cases above with
  | nil => simp [joinPath, dotted]
  | cons first above =>
    rw [joinPath, if_neg (by simpa using dotted_ne_empty h), dotted, dotted,
      String.intercalate_append_of_ne_nil (List.cons_ne_nil first above) (List.cons_ne_nil key []),
      String.intercalate_singleton]

/-! ### Laying out -/

mutual

theorem flattenAt_rising (path : String) {done : Bindings} (h : RisingKeys done) :
    ∀ v : Value, RisingKeys (flattenAt path done v)
  | .object members => flattenMembers_rising path h members
  | .array _ => h
  | .null => h.insertMember
  | .bool _ => h.insertMember
  | .number _ => h.insertMember
  | .string _ => h.insertMember

theorem flattenMembers_rising (path : String) {done : Bindings} (h : RisingKeys done) :
    ∀ members : List (String × Value), RisingKeys (flattenMembers path done members)
  | [] => h
  | (key, v) :: rest => flattenMembers_rising path (flattenAt_rising (joinPath path key) h v) rest

end

theorem flattenAt_of_isScalar {v : Value} (hv : v.isScalar = true) (path : String)
    (done : Bindings) : flattenAt path done v = insertMember path v.stringify done := by
  cases v with
  | array items => simp [Value.isScalar] at hv
  | object members => simp [Value.isScalar] at hv
  | _ => rw [flattenAt] <;> simp [Value.stringify]

theorem lookup?_flattenAt_of_isScalar {v : Value} {above : List String} {done : Bindings}
    {p : String} (hv : v.isScalar = true)
    (hne : ∀ path e, v.Leaf path e → dotted (above ++ path) ≠ p) :
    lookup? p (flattenAt (dotted above) done v) = lookup? p done := by
  rw [flattenAt_of_isScalar hv, lookup?_insertMember, if_neg]
  simpa using hne [] v ⟨rfl, hv⟩

mutual

/-- A name is bound as before unless it is that of a path to a scalar. -/
theorem lookup?_flattenAt_of_ne {p : String} : ∀ {v : Value} (above : List String)
    {done : Bindings}, v.Keyed → v.PlainKeys → (∀ k ∈ above, PlainKey k) →
    (∀ path e, v.Leaf path e → dotted (above ++ path) ≠ p) →
    lookup? p (flattenAt (dotted above) done v) = lookup? p done
  | .object members, above, done, hkeyed, hplain, habove, hne => by
    rw [flattenAt]
    refine lookup?_flattenMembers_of_ne above hkeyed.2 hplain habove fun m hm path e hleaf => ?_
    exact hne (m.1 :: path) e (hleaf.member hkeyed.1 hm)
  | .array _, _, _, _, _, _, _ => rfl
  | .null, _, _, _, _, _, hne => lookup?_flattenAt_of_isScalar rfl hne
  | .bool _, _, _, _, _, _, hne => lookup?_flattenAt_of_isScalar rfl hne
  | .number _, _, _, _, _, _, hne => lookup?_flattenAt_of_isScalar rfl hne
  | .string _, _, _, _, _, _, hne => lookup?_flattenAt_of_isScalar rfl hne

theorem lookup?_flattenMembers_of_ne {p : String} : ∀ {members : List (String × Value)}
    (above : List String) {done : Bindings}, membersKeyed members → membersPlain members →
    (∀ k ∈ above, PlainKey k) →
    (∀ m ∈ members, ∀ path e, m.2.Leaf path e → dotted (above ++ m.1 :: path) ≠ p) →
    lookup? p (flattenMembers (dotted above) done members) = lookup? p done
  | [], _, _, _, _, _, _ => rfl
  | (key, v) :: rest, above, done, hkeyed, hplain, habove, hne => by
    have hdeep : ∀ k ∈ above ++ [key], PlainKey k := by
      simpa [or_imp, forall_and] using And.intro habove hplain.1
    rw [flattenMembers, joinPath_dotted habove, lookup?_flattenMembers_of_ne above hkeyed.2
      hplain.2.2 habove fun m hm => hne m (List.mem_cons_of_mem _ hm)]
    refine lookup?_flattenAt_of_ne (above ++ [key]) hkeyed.1 hplain.2.1 hdeep fun path e hleaf => ?_
    rw [List.append_assoc]
    exact hne (key, v) List.mem_cons_self path e hleaf

end

theorem lookup?_flattenAt_leaf_of_isScalar {v e : Value} {path : List String} (above : List String)
    (done : Bindings) (hv : v.isScalar = true) (hleaf : v.Leaf path e) :
    lookup? (dotted (above ++ path)) (flattenAt (dotted above) done v) = some e.stringify := by
  obtain rfl : path = [] := Value.eq_nil_of_follow? (by rintro members rfl; cases hv) hleaf.1
  obtain rfl : v = e := Option.some.inj hleaf.1
  rw [flattenAt_of_isScalar hv, lookup?_insertMember, if_pos (by rw [List.append_nil])]

mutual

/-- The name of a path to a scalar is bound to its text. -/
theorem lookup?_flattenAt_leaf {e : Value} : ∀ {v : Value} (above : List String)
    {path : List String} {done : Bindings}, v.Keyed → v.PlainKeys → (∀ k ∈ above, PlainKey k) →
    v.Leaf path e →
    lookup? (dotted (above ++ path)) (flattenAt (dotted above) done v) = some e.stringify
  | .object _, _, [], _, _, _, _, hleaf => by
    obtain ⟨⟨rfl⟩, hscalar⟩ := hleaf
    cases hscalar
  | .object members, above, key :: path, done, hkeyed, hplain, habove, hleaf => by
    obtain ⟨w, hw, hrest⟩ := Option.bind_eq_some_iff.mp hleaf.1
    rw [flattenAt]
    exact lookup?_flattenMembers_leaf above hkeyed.1 hkeyed.2 hplain habove (mem_of_lookup? hw)
      ⟨hrest, hleaf.2⟩
  | .array _, _, path, _, _, _, _, hleaf => by
    obtain rfl : path = [] := Value.eq_nil_of_follow? (by rintro members ⟨⟩) hleaf.1
    obtain ⟨⟨rfl⟩, hscalar⟩ := hleaf
    cases hscalar
  | .null, above, _, done, _, _, _, hleaf => lookup?_flattenAt_leaf_of_isScalar above done rfl hleaf
  | .bool _, above, _, done, _, _, _, hleaf =>
    lookup?_flattenAt_leaf_of_isScalar above done rfl hleaf
  | .number _, above, _, done, _, _, _, hleaf =>
    lookup?_flattenAt_leaf_of_isScalar above done rfl hleaf
  | .string _, above, _, done, _, _, _, hleaf =>
    lookup?_flattenAt_leaf_of_isScalar above done rfl hleaf

theorem lookup?_flattenMembers_leaf {e : Value} : ∀ {members : List (String × Value)}
    (above : List String) {path : List String} {done : Bindings} {m : String × Value},
    (members.map Prod.fst).Nodup → membersKeyed members → membersPlain members →
    (∀ k ∈ above, PlainKey k) → m ∈ members → m.2.Leaf path e →
    lookup? (dotted (above ++ m.1 :: path)) (flattenMembers (dotted above) done members) =
      some e.stringify
  | [], _, _, _, _, _, _, _, _, hm, _ => absurd hm List.not_mem_nil
  | (key, v) :: rest, above, path, done, m, hkeys, hkeyed, hplain, habove, hm, hleaf => by
    have hdeep : ∀ k ∈ above ++ [key], PlainKey k := by
      simpa [or_imp, forall_and] using And.intro habove hplain.1
    rw [List.map_cons, List.nodup_cons] at hkeys
    rw [flattenMembers, joinPath_dotted habove]
    rcases List.mem_cons.mp hm with rfl | hm
    · -- the other members have other keys, so they leave the name alone
      rw [lookup?_flattenMembers_of_ne above hkeyed.2 hplain.2.2 habove]
      · rw [List.append_cons]
        exact lookup?_flattenAt_leaf (above ++ [key]) hkeyed.1 hplain.2.1 hdeep hleaf
      · intro n hn path' e' hleaf' he
        have hn' := membersPlain_iff.mp hplain.2.2 n hn
        have hpath : ∀ k ∈ above ++ n.1 :: path', PlainKey k := by
          simpa [or_imp, forall_and] using
            And.intro habove ⟨hn'.1, hn'.2.of_follow? hleaf'.1⟩
        have hpath' : ∀ k ∈ above ++ key :: path, PlainKey k := by
          simpa [or_imp, forall_and] using
            And.intro habove ⟨hplain.1, hplain.2.1.of_follow? hleaf.1⟩
        have hkey := (List.cons.inj (List.append_cancel_left (dotted_inj hpath hpath' he))).1
        exact hkeys.1 (List.mem_map.mpr ⟨n, hn, hkey⟩)
    · exact lookup?_flattenMembers_leaf above hkeys.2 hkeyed.2 hplain.2.2 habove hm hleaf

end

/-- A name is bound if and only if it is that of a path through objects that ends at a value of its
own, and then to the text of that value. Paths of one name are the same path, and no name begins with
that of a path to an array. -/
theorem flatten_exact {members : List (String × Value)} (hkeyed : (Value.object members).Keyed)
    (hplain : (Value.object members).PlainKeys) :
    RisingKeys (flatten (.object members)) ∧
      (∀ p s, lookup? p (flatten (.object members)) = some s ↔
        ∃ path e, (Value.object members).Leaf path e ∧ dotted path = p ∧ e.stringify = s) ∧
      (∀ path path' e e', (Value.object members).Leaf path e →
        (Value.object members).Leaf path' e' → dotted path = dotted path' → path = path') ∧
      ∀ path items, (Value.object members).follow? path = some (.array items) →
        ∀ more, lookup? (dotted (path ++ more)) (flatten (.object members)) = none := by
  have hlaid : flatten (.object members) = flattenAt (dotted []) [] (.object members) := by
    simp [flatten, flattenAt, dotted]
  have hat : ∀ path e, (Value.object members).Leaf path e →
      lookup? (dotted path) (flatten (.object members)) = some e.stringify := fun path e hleaf =>
    hlaid ▸ lookup?_flattenAt_leaf [] hkeyed hplain (by simp) hleaf
  have hoff : ∀ p, (∀ path e, (Value.object members).Leaf path e → dotted path ≠ p) →
      lookup? p (flatten (.object members)) = none := fun p hne =>
    hlaid ▸ lookup?_flattenAt_of_ne [] hkeyed hplain (by simp) hne
  refine ⟨flattenMembers_rising "" List.Pairwise.nil members, fun p s => ⟨fun hs => ?_, ?_⟩, ?_, ?_⟩
  · by_contra hnone
    rw [hoff p fun path e hleaf he => ?_] at hs
    · cases hs
    · refine hnone ⟨path, e, hleaf, he, ?_⟩
      rw [← he, hat path e hleaf] at hs
      exact Option.some.inj hs
  · rintro ⟨path, e, hleaf, rfl, rfl⟩
    exact hat path e hleaf
  · intro path path' e e' hleaf hleaf' he
    exact dotted_inj (hplain.of_follow? hleaf.1) (hplain.of_follow? hleaf'.1) he
  · intro path items hitems more
    refine hoff _ fun path' e hleaf he => ?_
    obtain ⟨rest, rfl⟩ := prefix_of_dotted (hplain.of_follow? hitems) (hplain.of_follow? hleaf.1) he
    have hrest : (Value.array items).follow? rest = some e := by
      rw [← hleaf.1, Value.follow?_append, hitems]
      rfl
    obtain rfl : rest = [] := Value.eq_nil_of_follow? (by rintro members ⟨⟩) hrest
    obtain rfl : Value.array items = e := Option.some.inj hrest
    cases hleaf.2

theorem flatten_exact_name :
    lookup? "name.first" (flatten (.object [("name", .object [("first", .string "Ada")]),
        ("orders", .array [.bool true])])) = some "Ada" ∧
      lookup? "orders.0" (flatten (.object [("name", .object [("first", .string "Ada")]),
        ("orders", .array [.bool true])])) = none := by
  obtain ⟨-, hbound, -, harray⟩ := @flatten_exact [("name", .object [("first", .string "Ada")]),
    ("orders", .array [.bool true])] (by decide) (by decide)
  constructor
  · rw [hbound]
    exact ⟨["name", "first"], .string "Ada", ⟨rfl, rfl⟩, by decide, rfl⟩
  · exact harray ["orders"] [.bool true] rfl ["0"]

end Template

end EmailTemplate
